import Libuzi.Thread.RegistrySteps

/-!
# The dictionaries of the thread registry

When a thread has read `thread_list` for an operation, and until it has carried the operation
out, the dictionary must stay where it is: in use, and the one that `thread_list` points to.
The code has nothing that sees to it. `Undisturbed` says which steps upset it, or upset the
entries, each from where the threads stand before the step; under this condition the
dictionary in hand stays (`dictInv_step`).

What a step does to the dictionaries is said once, by `DictStep`: nothing, a change of the one
in hand, or one of the four steps that make, store, free and forget one.
-/

namespace Libuzi

open Runs Threads

namespace Thread

namespace Lifetime

/-! ### What a place says -/

/-- The dictionary that the next operation in `cleanup_handle` is applied to. -/
def CleanupPc.operand : CleanupPc → Option ℕ
  | .contains d | .remove d => d
  | _ => none

/-- **The dictionary that a thread has in hand**: it has read `thread_list`, and the next thing
it does is an operation on what it read. -/
def Pc.operand : Pc → Option ℕ
  | .create _ _ (.install d) | .create _ _ (.add d) => d
  | .close _ (.contains d) | .close _ (.lock d) | .close _ (.unlock d) | .close _ (.count d)
  | .close _ (.free d) => d
  | .launch (.contains d) | .launch (.assert d) => d
  | .close _ (.cleanup pc) | .launch (.cleanup pc) => pc.operand
  | _ => none

/-- The next step in `cleanup_handle` reads `thread_list` for an operation. -/
def CleanupPc.reads : CleanupPc → Bool
  | .readContains | .readRemove => true
  | _ => false

/-- The next step reads `thread_list` for an operation. -/
def Pc.reads : Pc → Bool
  | .create _ _ .readInstall | .create _ _ .readAdd => true
  | .close _ .readContains | .close _ .readLock | .close _ .readUnlock | .close _ .readCount
  | .close _ .readFree => true
  | .launch .readContains | .launch .readAssert => true
  | .close _ (.cleanup pc) | .launch (.cleanup pc) => pc.reads
  | _ => false

/-- The dictionary that the thread has freed, and that it has not yet taken from
`thread_list`. -/
def Pc.nulling : Pc → Option ℕ
  | .close _ (.storeNull d) => d
  | _ => none

/-- The dictionary that the thread has made, and that it has not yet stored in `thread_list`. -/
def Pc.storing : Pc → Option ℕ
  | .create _ _ (.store d) => d
  | _ => none

/-- The next step stores a dictionary in `thread_list`. -/
def Pc.stores : Pc → Bool
  | .create _ _ (.store _) => true
  | _ => false

/-- The object that the next step enters. -/
def Pc.adds : Pc → Option ℕ
  | .create h _ (.add (some _)) => some h
  | _ => none

/-- The dictionary that the next step frees. -/
def Pc.frees : Pc → Option ℕ
  | .close _ (.free d) => d
  | _ => none

/-- The pointer that the thread has freed, if the next step stores `NULL`. -/
def Pc.forgets : Pc → Option (Option ℕ)
  | .close _ (.storeNull d) => some d
  | _ => none

section Law

variable {ι : Type*} [DecidableEq ι]

/-- **The condition on a step.**

* `CreateThread` stores a dictionary only in a `thread_list` that is still `NULL`.
* The `pthread_t` of a thread that is entered is not 0, and is not that of another entry.
* `ThreadCloseHandle` frees a dictionary only while it is still empty and no other thread has
  it in hand, and it stores `NULL` only over the pointer that it has freed, or over `NULL`.
* Nobody reads `thread_list` for an operation between a `ListDictionary_Free` and the store of
  `NULL` that follows it. -/
def Undisturbed (c : Config ι (Shared ι) Local) (e : ι × Act) : Prop :=
  ((c.locals e.1).pc.stores = true → c.shared.threadList = none) ∧
  (∀ h ∈ (c.locals e.1).pc.adds, e.2 = .go → c.shared.idOf h ≠ some 0 ∧
    ∀ item ∈ c.shared.entries, c.shared.idOf item.1 ≠ c.shared.idOf h) ∧
  (∀ d ∈ (c.locals e.1).pc.frees, (∀ D ∈ (c.shared.dicts d).value, D.items = []) ∧
    ∀ j, j ≠ e.1 → (c.locals j).pc.operand ≠ some d) ∧
  (∀ d ∈ (c.locals e.1).pc.forgets, c.shared.threadList = none ∨ c.shared.threadList = d) ∧
  ((c.locals e.1).pc.reads = true → c.shared.threadList ≠ none →
    ∀ j, (c.locals j).pc.nulling ≠ c.shared.threadList)

instance [Fintype ι] (c : Config ι (Shared ι) Local) (e : ι × Act) :
    Decidable (Undisturbed c e) :=
  inferInstanceAs (Decidable (_ ∧ _ ∧ _ ∧ _ ∧ _))

/-! ### The dictionaries -/

/-- **What a step does to the dictionaries**, and where it leads. -/
inductive DictStep (s : Shared ι) (l : Local) (s' : Shared ι) (l' : Local) : Prop
  /-- Nothing; it may read `thread_list`. -/
  | keep (hlist : s'.threadList = s.threadList) (hdicts : s'.dicts = s.dicts)
      (hnulling : l.pc.nulling = none) (hnulling' : l'.pc.nulling = none)
      (hstoring' : l'.pc.storing = none)
      (hoperand : l'.pc.operand = none ∨ l.pc.reads = true ∧ l'.pc.operand = s.threadList)
  /-- It changes the dictionary in hand. -/
  | touch (d : ℕ) (D D' : Dict ι) (hoperand : l.pc.operand = some d)
      (hD : s.dicts d = .live D) (hs' : s' = s.setDict d (.live D'))
      (hitems : D'.items = D.items ∨
        (∃ h suspended, l.pc = .create h suspended (.add (some d)) ∧
          l'.pc = .create h suspended .finish ∧ D'.items = ListDictionary.add D.items h h) ∨
        ∃ h o, s.object h = some o ∧ (l.pc = .close h (.cleanup (.remove (some d))) ∧
            l'.pc = .close h (.cleanup .free) ∨
          l.self = some h ∧ l.pc = .launch (.cleanup (.remove (some d))) ∧
            l'.pc = .launch (.cleanup .free)) ∧
          D'.items = ListDictionary.remove (s.keyEquals D h o) D.items)
      (hoperand' : l'.pc.operand = none) (hnulling' : l'.pc.nulling = none)
      (hstoring' : l'.pc.storing = none)
  /-- It makes a new dictionary. -/
  | new (d : ℕ) (h : ℕ) (suspended : Bool) (hpc : l.pc = .create h suspended .new)
      (hpc' : l'.pc = .create h suspended (.store (some d))) (hd : s.dicts d = .unallocated)
      (hs' : s' = s.setDict d (.live Dict.new))
  /-- It stores a dictionary. -/
  | store (d : Option ℕ) (h : ℕ) (suspended : Bool)
      (hpc : l.pc = .create h suspended (.store d)) (hpc' : l'.pc = .create h suspended .check)
      (hs' : s' = { s with threadList := d })
  /-- It frees a dictionary. -/
  | free (d : ℕ) (D : Dict ι) (h : ℕ) (hpc : l.pc = .close h (.free (some d)))
      (hpc' : l'.pc = .close h (.storeNull (some d))) (hD : s.dicts d = .live D)
      (hs' : s' = s.setDict d .freed)
  /-- It stores `NULL`. -/
  | null (d : Option ℕ) (h : ℕ) (hpc : l.pc = .close h (.storeNull d)) (hpc' : l'.pc = .idle)
      (hs' : s' = { s with threadList := none })

variable {i : ι} {s s' : Shared ι} {l l' : Local} {a : Act}

/-- The two callers of `cleanup_handle`. -/
def CleansUp (l : Local) (h : ℕ) (back : CleanupPc → Pc) (after : Pc) : Prop :=
  back = (fun pc => .close h (.cleanup pc)) ∧ after = .close h .readUnlock ∨
    l.self = some h ∧ back = (fun pc => .launch (.cleanup pc)) ∧ after = .launch .finish

theorem dictStep_cleanup {h : ℕ} {back : CleanupPc → Pc} {after pc' : Pc} {pc : CleanupPc}
    (hc : CleansUp l h back after) (hpc : l.pc = back pc)
    (hs : cleanupStep i s h back after pc = some (s', pc')) :
    DictStep s l s' ⟨l.self, pc'⟩ := by
  have hview : ∀ pc, (back pc).operand = pc.operand ∧ (back pc).reads = pc.reads ∧
      (back pc).nulling = none ∧ (back pc).storing = none := by
    rcases hc with ⟨rfl, -⟩ | ⟨-, rfl, -⟩ <;> exact fun pc => ⟨rfl, rfl, rfl, rfl⟩
  have hquiet : ∀ pc'' : CleanupPc, s' = s → pc' = back pc'' →
      (pc''.operand = none ∨ pc.reads = true ∧ pc''.operand = s.threadList) →
      DictStep s l s' ⟨l.self, pc'⟩ := by
    rintro pc'' rfl rfl hop
    obtain ⟨ho, hr, hn, hst⟩ := hview pc''
    refine .keep rfl rfl (hpc ▸ (hview pc).2.2.1) hn hst ?_
    rwa [ho, hpc, (hview pc).2.1]
  cases pc with
  | test =>
    obtain ⟨rfl, rfl⟩ := Prod.mk.inj (Option.some.inj hs)
    exact hquiet _ rfl rfl (.inl (by split_ifs <;> rfl))
  | readContains =>
    obtain ⟨rfl, rfl⟩ := Prod.mk.inj (Option.some.inj hs)
    exact hquiet _ rfl rfl (.inr ⟨rfl, rfl⟩)
  | contains d =>
    obtain ⟨b, -, hs⟩ := Option.map_eq_some_iff.mp hs
    obtain ⟨rfl, rfl⟩ := Prod.mk.inj hs
    exact hquiet _ rfl rfl (.inl (by cases b <;> rfl))
  | readRemove =>
    obtain ⟨rfl, rfl⟩ := Prod.mk.inj (Option.some.inj hs)
    exact hquiet _ rfl rfl (.inr ⟨rfl, rfl⟩)
  | remove d =>
    obtain ⟨t, ht, hs⟩ := Option.map_eq_some_iff.mp hs
    obtain ⟨rfl, rfl⟩ := Prod.mk.inj hs
    cases d with
    | none =>
      obtain rfl := Option.some.inj ht
      exact hquiet .free rfl rfl (.inl rfl)
    | some d =>
      obtain ⟨o, ho, ht⟩ := Option.bind_eq_some_iff.mp ht
      obtain ⟨D, hD, rfl⟩ := Option.map_eq_some_iff.mp ht
      obtain ⟨hop, -, hn, hst⟩ := hview .free
      refine .touch d D _ (by rw [hpc, (hview _).1]; rfl) (enter_eq_some hD) rfl
        (.inr (.inr ⟨h, o, ho, ?_, rfl⟩)) hop hn hst
      rcases hc with ⟨rfl, -⟩ | ⟨hself, rfl, -⟩
      · exact .inl ⟨hpc, rfl⟩
      · exact .inr ⟨hself, hpc, rfl⟩
  | free =>
    obtain ⟨o, -, hs⟩ := Option.map_eq_some_iff.mp hs
    obtain ⟨rfl, rfl⟩ := Prod.mk.inj hs
    refine .keep rfl rfl (hpc ▸ (hview _).2.2.1) ?_ ?_ (.inl ?_) <;>
      rcases hc with ⟨-, rfl⟩ | ⟨-, -, rfl⟩ <;> rfl

theorem dictStep_create {h : ℕ} {suspended : Bool} {pc' : Pc} {pc : CreatePc}
    (hpc : l.pc = .create h suspended pc)
    (hs : createStep i s h suspended pc a = some (s', pc')) :
    DictStep s l s' ⟨l.self, pc'⟩ := by
  have hnull : l.pc.nulling = none := by
    rw [hpc]
    rfl
  revert hs
  fun_cases createStep i s h suspended pc a with
  | case3 | case11 | case20 => exact fun hs => absurd hs (Option.some_ne_none _).symm
  | case1 =>
    rintro ⟨⟩
    exact .keep rfl rfl hnull rfl (by split_ifs <;> rfl) (.inl (by split_ifs <;> rfl))
  | case2 d hd =>
    rintro ⟨⟩
    exact .new d h suspended hpc rfl hd rfl
  | case5 d =>
    rintro ⟨⟩
    exact .store d h suspended hpc rfl rfl
  | case6 =>
    rintro ⟨⟩
    exact .keep rfl rfl hnull rfl (by split_ifs <;> rfl) (.inl (by split_ifs <;> rfl))
  | case7 | case14 =>
    rintro ⟨⟩
    exact .keep rfl rfl hnull rfl rfl (.inr ⟨by rw [hpc]; rfl, rfl⟩)
  | case8 d =>
    intro hs
    obtain ⟨D, hD, ⟨⟩⟩ := Option.map_eq_some_iff.mp hs
    exact .touch d D _ (by rw [hpc]; rfl) (value_eq_some.mp hD) rfl (.inl rfl) rfl rfl rfl
  | case9 =>
    intro hs
    obtain ⟨o, -, hs⟩ := Option.map_eq_some_iff.mp hs
    split_ifs at hs <;> cases hs <;> exact .keep rfl rfl hnull rfl rfl (.inl rfl)
  | case12 | case17 | case19 =>
    intro hs
    obtain ⟨o, -, ⟨⟩⟩ := Option.map_eq_some_iff.mp hs
    exact .keep rfl rfl hnull rfl rfl (.inl rfl)
  | case16 d =>
    intro hs
    obtain ⟨D, hD, ⟨⟩⟩ := Option.map_eq_some_iff.mp hs
    exact .touch d D _ (by rw [hpc]; rfl) (enter_eq_some hD) rfl
      (.inr (.inl ⟨h, suspended, hpc, rfl, rfl⟩)) rfl rfl rfl
  | _ =>
    rintro ⟨⟩
    exact .keep rfl rfl hnull rfl rfl (.inl rfl)

theorem dictStep_close {h : ℕ} {pc' : Pc} {pc : ClosePc} (hpc : l.pc = .close h pc)
    (hs : closeStep i s h pc a = some (s', pc')) : DictStep s l s' ⟨l.self, pc'⟩ := by
  revert hs
  fun_cases closeStep i s h pc a with
  | case1 =>
    rintro ⟨⟩
    refine .keep rfl rfl (by rw [hpc]; rfl) ?_ ?_ (.inl ?_) <;> split_ifs <;> rfl
  | case2 | case4 | case13 | case16 | case19 =>
    rintro ⟨⟩
    exact .keep rfl rfl (by rw [hpc]; rfl) rfl rfl (.inr ⟨by rw [hpc]; rfl, rfl⟩)
  | case3 | case18 =>
    intro hs
    obtain ⟨b, -, ⟨⟩⟩ := Option.map_eq_some_iff.mp hs
    refine .keep rfl rfl (by rw [hpc]; rfl) ?_ ?_ (.inl ?_) <;> split_ifs <;> rfl
  | case6 d =>
    intro hs
    obtain ⟨D, hD, ⟨⟩⟩ := Option.map_eq_some_iff.mp hs
    exact .touch d D _ (by rw [hpc]; rfl) (enter_eq_some hD) rfl (.inl rfl) rfl rfl rfl
  | case7 =>
    intro hs
    obtain ⟨o, -, ⟨⟩⟩ := Option.map_eq_some_iff.mp hs
    refine .keep rfl rfl (by rw [hpc]; rfl) ?_ ?_ (.inl ?_) <;> split_ifs <;> rfl
  | case8 =>
    intro hs
    obtain ⟨o, -, hs⟩ := Option.bind_eq_some_iff.mp hs
    split_ifs at hs <;> cases hs <;> exact .keep rfl rfl (by rw [hpc]; rfl) rfl rfl (.inl rfl)
  | case10 =>
    intro hs
    obtain ⟨o, -, ⟨⟩⟩ := Option.map_eq_some_iff.mp hs
    exact .keep rfl rfl (by rw [hpc]; rfl) rfl rfl (.inl rfl)
  | case12 pc => exact dictStep_cleanup (.inl ⟨rfl, rfl⟩) hpc
  | case15 d =>
    intro hs
    obtain ⟨D, hD, hs⟩ := Option.bind_eq_some_iff.mp hs
    obtain ⟨-, ⟨⟩⟩ := Option.ite_none_right_eq_some.mp hs
    exact .touch d D _ (by rw [hpc]; rfl) (value_eq_some.mp hD) rfl (.inl rfl) rfl rfl rfl
  | case21 d =>
    intro hs
    obtain ⟨D, hD, ⟨⟩⟩ := Option.map_eq_some_iff.mp hs
    exact .free d D h hpc rfl (enter_eq_some hD) rfl
  | case22 d =>
    rintro ⟨⟩
    exact .null d h hpc rfl rfl
  | case23 => exact fun hs => absurd hs (Option.some_ne_none _).symm
  | _ =>
    rintro ⟨⟩
    exact .keep rfl rfl (by rw [hpc]; rfl) rfl rfl (.inl rfl)

theorem dictStep_launch {h : ℕ} {pc' : Pc} {pc : LaunchPc} (hpc : l.pc = .launch pc)
    (hself : l.self = some h) (hs : launchStep i s h pc = some (s', pc')) :
    DictStep s l s' ⟨l.self, pc'⟩ := by
  have hnull : l.pc.nulling = none := by
    rw [hpc]
    rfl
  cases pc with
  | readContains | readAssert =>
    cases hs
    exact .keep rfl rfl hnull rfl rfl (.inr ⟨by rw [hpc]; rfl, rfl⟩)
  | contains d =>
    obtain ⟨b, -, ⟨⟩⟩ := Option.map_eq_some_iff.mp hs
    exact .keep rfl rfl hnull rfl rfl (.inl (by split_ifs <;> rfl))
  | wait =>
    cases hs
    exact .keep rfl rfl hnull rfl rfl (.inl rfl)
  | assert d =>
    obtain ⟨b, -, hs⟩ := Option.bind_eq_some_iff.mp hs
    obtain ⟨-, ⟨⟩⟩ := Option.ite_none_right_eq_some.mp hs
    exact .keep rfl rfl hnull rfl rfl (.inl rfl)
  | setEvent =>
    obtain ⟨o, -, ⟨⟩⟩ := Option.map_eq_some_iff.mp hs
    exact .keep rfl rfl hnull rfl rfl (.inl rfl)
  | testDetached =>
    obtain ⟨o, -, ⟨⟩⟩ := Option.map_eq_some_iff.mp hs
    exact .keep rfl rfl hnull rfl rfl (.inl (by split_ifs <;> rfl))
  | cleanup pc => exact dictStep_cleanup (.inr ⟨hself, rfl, rfl⟩) hpc hs
  | finish =>
    simp only [launchStep] at hs
    split at hs <;> cases hs <;> exact .keep rfl rfl hnull rfl rfl (.inl rfl)

omit [DecidableEq ι] in
theorem dictStep_idle (hpc : l.pc = .idle) (hs : idleStep s l.self a = some (s', l')) :
    DictStep s l s' l' := by
  have hn : l.pc.nulling = none := by
    rw [hpc]
    rfl
  revert hs
  fun_cases idleStep s l.self a with
  | case1 h suspended =>
    rintro ⟨⟩
    exact .keep rfl rfl hn rfl rfl (.inl rfl)
  | case3 h =>
    rintro ⟨⟩
    exact .keep rfl rfl hn rfl rfl (.inl rfl)
  | case5 h =>
    intro hs
    obtain ⟨o, -, hs⟩ := Option.bind_eq_some_iff.mp hs
    obtain ⟨-, ⟨⟩⟩ := Option.ite_none_right_eq_some.mp hs
    exact .keep rfl rfl hn rfl rfl (.inl rfl)
  | case6 =>
    intro hs
    obtain ⟨h, -, ⟨⟩⟩ := Option.map_eq_some_iff.mp hs
    exact .keep rfl rfl hn rfl rfl (.inl rfl)
  | _ => exact fun hs => absurd hs (Option.some_ne_none _).symm

/-- **Every step is one of these.** -/
theorem dictStep_of_next (hs : next i a s l = some (s', l')) : DictStep s l s' l' := by
  unfold next at hs
  split at hs
  · next hpc => exact dictStep_idle hpc hs
  · next h suspended pc hpc =>
    obtain ⟨r, hr, ⟨⟩⟩ := Option.map_eq_some_iff.mp hs
    exact dictStep_create hpc hr
  · next h pc hpc =>
    obtain ⟨r, hr, ⟨⟩⟩ := Option.map_eq_some_iff.mp hs
    exact dictStep_close hpc hr
  · next pc hpc =>
    obtain ⟨h, hself, hs⟩ := Option.bind_eq_some_iff.mp hs
    obtain ⟨-, hs⟩ := Option.ite_none_right_eq_some.mp hs
    obtain ⟨r, hr, ⟨⟩⟩ := Option.map_eq_some_iff.mp hs
    exact dictStep_launch hpc hself hr
  · cases hs

/-! ### Dictionaries in hand -/

/-- **What a thread can rely on**: a dictionary in hand is in use, and still the one that
`thread_list` points to; one that it has freed is freed; and one that it has not stored yet is
empty, and not in `thread_list`. -/
structure LocalDict (s : Shared ι) (l : Local) : Prop where
  operand : ∀ d, l.pc.operand = some d → s.threadList = some d ∧ ∃ D, s.dicts d = .live D
  nulling : ∀ d, l.pc.nulling = some d → s.dicts d = .freed
  storing : ∀ d, l.pc.storing = some d →
    s.threadList ≠ some d ∧ ∃ D, s.dicts d = .live D ∧ D.items = []

/-- **The invariant of the dictionaries**: moreover `thread_list` points to a dictionary that is
in use, unless somebody has freed it and is about to say so. -/
structure DictInv (c : Config ι (Shared ι) Local) : Prop where
  listed : ∀ d, c.shared.threadList = some d →
    (∃ D, c.shared.dicts d = .live D) ∨ ∃ j, (c.locals j).pc.nulling = some d
  each : ∀ j, LocalDict c.shared (c.locals j)
  apart : ∀ j k d, j ≠ k → (c.locals j).pc.storing = some d → (c.locals k).pc.storing ≠ some d

variable {c : Config ι (Shared ι) Local}

omit [DecidableEq ι] in
/-- A thread with nothing in hand relies on nothing. -/
theorem localDict_of_none (ho : l.pc.operand = none) (hn : l.pc.nulling = none)
    (hs : l.pc.storing = none) : LocalDict s l := by
  constructor
  · intro d hd
    exact absurd (ho.symm.trans hd) (Option.some_ne_none d).symm
  · intro d hd
    exact absurd (hn.symm.trans hd) (Option.some_ne_none d).symm
  · intro d hd
    exact absurd (hs.symm.trans hd) (Option.some_ne_none d).symm

/-- The invariant after a move, from what holds of the thread that moved and of the others. -/
theorem dictInv_move (hi : DictInv c)
    (hlisted : ∀ d, s'.threadList = some d → (∃ D, s'.dicts d = .live D) ∨
      l'.pc.nulling = some d ∨ ∃ j, j ≠ i ∧ (c.locals j).pc.nulling = some d)
    (hself : LocalDict s' l') (hothers : ∀ j, j ≠ i → LocalDict s' (c.locals j))
    (hapart : ∀ j d, j ≠ i → l'.pc.storing = some d → (c.locals j).pc.storing ≠ some d) :
    DictInv (c.move i s' l') := by
  refine ⟨?_, Config.forall_move hself hothers, ?_⟩
  · intro d hd
    refine (hlisted d hd).imp id ?_
    rintro (hn | ⟨j, hj, hn⟩)
    · exact ⟨i, by rwa [Config.move_self]⟩
    · exact ⟨j, by rwa [Config.move_of_ne _ _ _ hj]⟩
  · intro j k d hjk hj hk
    rcases eq_or_ne j i with rfl | hji
    · rw [Config.move_self] at hj
      rw [Config.move_of_ne _ _ _ hjk.symm] at hk
      exact hapart k d hjk.symm hj hk
    · rw [Config.move_of_ne _ _ _ hji] at hj
      rcases eq_or_ne k i with rfl | hki
      · rw [Config.move_self] at hk
        exact hapart j d hji hk hj
      · rw [Config.move_of_ne _ _ _ hki] at hk
        exact hi.apart j k d hjk hj hk

omit [DecidableEq ι] in
/-- What is read for an operation is in use. -/
theorem DictInv.read {d : ℕ} (hi : DictInv c) (hok : Undisturbed c (i, a))
    (hr : (c.locals i).pc.reads = true) (hd : c.shared.threadList = some d) :
    ∃ D, c.shared.dicts d = .live D := by
  refine (hi.listed d hd).resolve_right ?_
  rintro ⟨j, hj⟩
  exact hok.2.2.2.2 hr (by simp [hd]) j (hj.trans hd.symm)

/-- A step that changes no dictionary. -/
theorem dictInv_keep (hi : DictInv c) (hok : Undisturbed c (i, a))
    (hlist : s'.threadList = c.shared.threadList) (hdicts : s'.dicts = c.shared.dicts)
    (hnulling : (c.locals i).pc.nulling = none) (hnulling' : l'.pc.nulling = none)
    (hstoring' : l'.pc.storing = none)
    (hoperand : l'.pc.operand = none ∨
      (c.locals i).pc.reads = true ∧ l'.pc.operand = c.shared.threadList) :
    DictInv (c.move i s' l') := by
  refine dictInv_move hi ?_ ⟨?_, ?_, ?_⟩ ?_ ?_
  · intro d hd
    rw [hdicts]
    refine (hi.listed d (hlist ▸ hd)).imp id ?_
    rintro ⟨j, hj⟩
    refine .inr ⟨j, ?_, hj⟩
    rintro rfl
    exact absurd (hnulling.symm.trans hj) (Option.some_ne_none d).symm
  · intro d hd
    rw [hlist, hdicts]
    rcases hoperand with ho | ⟨hr, ho⟩
    · exact absurd (ho.symm.trans hd) (Option.some_ne_none d).symm
    · exact ⟨ho.symm.trans hd, hi.read hok hr (ho.symm.trans hd)⟩
  · intro d hd
    exact absurd (hnulling'.symm.trans hd) (Option.some_ne_none d).symm
  · intro d hd
    exact absurd (hstoring'.symm.trans hd) (Option.some_ne_none d).symm
  · intro j _
    obtain ⟨ho, hn, hst⟩ := hi.each j
    refine ⟨?_, ?_, ?_⟩
    · rwa [hlist, hdicts]
    · rwa [hdicts]
    · rwa [hlist, hdicts]
  · intro j d _ hd
    exact absurd (hstoring'.symm.trans hd) (Option.some_ne_none d).symm

/-- A step that changes the dictionary in hand. -/
theorem dictInv_touch {d : ℕ} {D D' : Dict ι} (hi : DictInv c)
    (hoperand : (c.locals i).pc.operand = some d) (hD : c.shared.dicts d = .live D)
    (hoperand' : l'.pc.operand = none) (hnulling' : l'.pc.nulling = none)
    (hstoring' : l'.pc.storing = none) :
    DictInv (c.move i (c.shared.setDict d (.live D')) l') := by
  have hlist := ((hi.each i).operand d hoperand).1
  refine dictInv_move hi ?_ (localDict_of_none hoperand' hnulling' hstoring') ?_ ?_
  · intro d' hd'
    obtain rfl : d = d' := Option.some.inj (hlist.symm.trans hd')
    exact .inl ⟨D', setDict_self ..⟩
  · intro j _
    obtain ⟨ho, hn, hst⟩ := hi.each j
    refine ⟨?_, ?_, ?_⟩
    · intro d' hd'
      obtain ⟨hl, -⟩ := ho d' hd'
      obtain rfl : d = d' := Option.some.inj (hlist.symm.trans hl)
      exact ⟨hlist, D', setDict_self ..⟩
    · intro d' hd'
      have hne : d' ≠ d := by
        rintro rfl
        exact absurd (hD.symm.trans (hn d' hd')) (by simp)
      rw [setDict_of_ne _ hne]
      exact hn d' hd'
    · intro d' hd'
      obtain ⟨hl, hnew⟩ := hst d' hd'
      have hne : d' ≠ d := by
        rintro rfl
        exact hl hlist
      rw [setDict_of_ne _ hne]
      exact ⟨hl, hnew⟩
  · intro j d' _ hd'
    exact absurd (hstoring'.symm.trans hd') (Option.some_ne_none d').symm

omit [DecidableEq ι] in
/-- `thread_list` does not point to where nothing has been allocated. -/
theorem DictInv.threadList_ne {d : ℕ} (hi : DictInv c) (hd : c.shared.dicts d = .unallocated) :
    c.shared.threadList ≠ some d := by
  intro hl
  rcases hi.listed d hl with ⟨D, hD⟩ | ⟨j, hj⟩
  · exact absurd (hd.symm.trans hD) (by simp)
  · exact absurd (hd.symm.trans ((hi.each j).nulling d hj)) (by simp)

/-- A new dictionary is known to nobody. -/
theorem dictInv_new {d h : ℕ} {suspended : Bool} (hi : DictInv c)
    (hpc : (c.locals i).pc = .create h suspended .new)
    (hpc' : l'.pc = .create h suspended (.store (some d)))
    (hd : c.shared.dicts d = .unallocated) :
    DictInv (c.move i (c.shared.setDict d (.live Dict.new)) l') := by
  have hlist := hi.threadList_ne hd
  refine dictInv_move hi ?_ ⟨?_, ?_, ?_⟩ ?_ ?_
  · intro d' hd'
    have hne : d' ≠ d := by
      rintro rfl
      exact hlist hd'
    rw [setDict_of_ne _ hne]
    refine (hi.listed d' hd').imp id ?_
    rintro ⟨j, hj⟩
    refine .inr ⟨j, ?_, hj⟩
    rintro rfl
    simp [hpc, Pc.nulling] at hj
  · intro d' hd'
    simp [hpc', Pc.operand] at hd'
  · intro d' hd'
    simp [hpc', Pc.nulling] at hd'
  · intro d' hd'
    rw [hpc'] at hd'
    obtain rfl : d = d' := Option.some.inj hd'
    exact ⟨hlist, _, setDict_self .., rfl⟩
  · intro j _
    obtain ⟨ho, hn, hst⟩ := hi.each j
    have hne : ∀ d', c.shared.dicts d' ≠ .unallocated → d' ≠ d := by
      rintro d' hd' rfl
      exact hd' hd
    refine ⟨?_, ?_, ?_⟩
    · intro d' hd'
      obtain ⟨hl, D, hD⟩ := ho d' hd'
      exact ⟨hl, D, by rwa [setDict_of_ne _ (hne d' (by simp [hD]))]⟩
    · intro d' hd'
      rw [setDict_of_ne _ (hne d' (by simp [hn d' hd']))]
      exact hn d' hd'
    · intro d' hd'
      obtain ⟨hl, D, hD, hnil⟩ := hst d' hd'
      exact ⟨hl, D, by rwa [setDict_of_ne _ (hne d' (by simp [hD]))], hnil⟩
  · intro j d' _ hd' hj
    rw [hpc'] at hd'
    obtain rfl : d = d' := Option.some.inj hd'
    obtain ⟨-, D, hD, -⟩ := (hi.each j).storing d hj
    exact absurd (hd.symm.trans hD) (by simp)

/-- A dictionary is stored where there was none. -/
theorem dictInv_store {d : Option ℕ} {h : ℕ} {suspended : Bool} (hi : DictInv c)
    (hok : c.shared.threadList = none) (hpc : (c.locals i).pc = .create h suspended (.store d))
    (hpc' : l'.pc = .create h suspended .check) :
    DictInv (c.move i { c.shared with threadList := d } l') := by
  have hview : (c.locals i).pc.storing = d := by rw [hpc]; rfl
  refine dictInv_move hi ?_ (localDict_of_none ?_ ?_ ?_) ?_ ?_
  · rintro d' rfl
    obtain ⟨-, D, hD, -⟩ := (hi.each i).storing d' hview
    exact .inl ⟨D, hD⟩
  · rw [hpc']; rfl
  · rw [hpc']; rfl
  · rw [hpc']; rfl
  · intro j hj
    obtain ⟨ho, hn, hst⟩ := hi.each j
    refine ⟨?_, hn, ?_⟩
    · intro d' hd'
      exact absurd (hok.symm.trans (ho d' hd').1) (Option.some_ne_none d').symm
    · intro d' hd'
      refine ⟨?_, (hst d' hd').2⟩
      rintro rfl
      exact hi.apart j i d' hj hd' hview
  · intro j d' _ hd'
    simp [hpc', Pc.storing] at hd'

/-- A dictionary is freed that nobody else has in hand. -/
theorem dictInv_free {d h : ℕ} (hi : DictInv c)
    (hok : ∀ j, j ≠ i → (c.locals j).pc.operand ≠ some d)
    (hpc : (c.locals i).pc = .close h (.free (some d)))
    (hpc' : l'.pc = .close h (.storeNull (some d))) :
    DictInv (c.move i (c.shared.setDict d .freed) l') := by
  have hlist : c.shared.threadList = some d := ((hi.each i).operand d (by rw [hpc]; rfl)).1
  refine dictInv_move hi ?_ ⟨?_, ?_, ?_⟩ ?_ ?_
  · intro d' hd'
    obtain rfl : d = d' := Option.some.inj (hlist.symm.trans hd')
    exact .inr (.inl (by rw [hpc']; rfl))
  · intro d' hd'
    simp [hpc', Pc.operand] at hd'
  · intro d' hd'
    rw [hpc'] at hd'
    obtain rfl : d = d' := Option.some.inj hd'
    exact setDict_self ..
  · intro d' hd'
    simp [hpc', Pc.storing] at hd'
  · intro j hj
    obtain ⟨ho, hn, hst⟩ := hi.each j
    refine ⟨?_, ?_, ?_⟩
    · intro d' hd'
      have hne : d' ≠ d := by
        rintro rfl
        exact hok j hj hd'
      rw [setDict_of_ne _ hne]
      exact ho d' hd'
    · intro d' hd'
      rcases eq_or_ne d' d with rfl | hne
      · exact setDict_self ..
      · rw [setDict_of_ne _ hne]
        exact hn d' hd'
    · intro d' hd'
      obtain ⟨hl, hnew⟩ := hst d' hd'
      have hne : d' ≠ d := by
        rintro rfl
        exact hl hlist
      rw [setDict_of_ne _ hne]
      exact ⟨hl, hnew⟩
  · intro j d' _ hd'
    simp [hpc', Pc.storing] at hd'

/-- `NULL` is stored over the pointer to a freed dictionary. -/
theorem dictInv_null {d : Option ℕ} {h : ℕ} (hi : DictInv c)
    (hok : c.shared.threadList = none ∨ c.shared.threadList = d)
    (hpc : (c.locals i).pc = .close h (.storeNull d)) (hpc' : l'.pc = .idle) :
    DictInv (c.move i { c.shared with threadList := none } l') := by
  refine dictInv_move hi ?_ (localDict_of_none ?_ ?_ ?_) ?_ ?_
  · intro d' hd'
    exact absurd hd' (Option.some_ne_none d').symm
  · rw [hpc']; rfl
  · rw [hpc']; rfl
  · rw [hpc']; rfl
  · intro j _
    obtain ⟨ho, hn, hst⟩ := hi.each j
    refine ⟨?_, hn, ?_⟩
    · intro d' hd'
      obtain ⟨hl, D, hD⟩ := ho d' hd'
      rcases hok with hnull | hfreed
      · exact absurd (hnull.symm.trans hl) (Option.some_ne_none d').symm
      · obtain rfl := hfreed.symm.trans hl
        have hd := (hi.each i).nulling d' (by rw [hpc]; rfl)
        exact absurd (hD.symm.trans hd) (by simp)
    · intro d' hd'
      exact ⟨(Option.some_ne_none d').symm, (hst d' hd').2⟩
  · intro j d' _ hd'
    simp [hpc', Pc.storing] at hd'

/-- **A step that meets the condition keeps the invariant of the dictionaries.** -/
theorem dictInv_step (hi : DictInv c) (hok : Undisturbed c (i, a))
    (hs : next i a c.shared (c.locals i) = some (s', l')) : DictInv (c.move i s' l') := by
  cases dictStep_of_next hs with
  | keep hlist hdicts hnulling hnulling' hstoring' hoperand =>
    exact dictInv_keep hi hok hlist hdicts hnulling hnulling' hstoring' hoperand
  | touch d D D' hoperand hD hs' _ hoperand' hnulling' hstoring' =>
    subst hs'
    exact dictInv_touch hi hoperand hD hoperand' hnulling' hstoring'
  | new d h suspended hpc hpc' hd hs' =>
    subst hs'
    exact dictInv_new hi hpc hpc' hd
  | store d h suspended hpc hpc' hs' =>
    subst hs'
    exact dictInv_store hi (hok.1 (by rw [hpc]; rfl)) hpc hpc'
  | free d D h hpc hpc' hD hs' =>
    subst hs'
    exact dictInv_free hi (hok.2.2.1 d (by rw [hpc]; rfl)).2 hpc hpc'
  | null d h hpc hpc' hs' =>
    subst hs'
    exact dictInv_null hi (hok.2.2.2.1 d (by rw [hpc]; rfl)) hpc hpc'

omit [DecidableEq ι] in
theorem dictInv_start : DictInv (start : Config ι (Shared ι) Local) := by
  refine ⟨?_, fun _ => localDict_of_none rfl rfl rfl, ?_⟩
  · intro d hd
    exact absurd hd (Option.some_ne_none d).symm
  · intro j k d _ hj
    exact absurd hj (Option.some_ne_none d).symm

end Law

end Lifetime

end Thread

end Libuzi
