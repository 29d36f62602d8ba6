import Libuzi.Thread.RegistryDicts

/-!
# Who answers for a handle

For an entry of the registry to be safe, it is not enough that the dictionaries are. It also
has to be known, for every handle, who may still come to its object with `cleanup_handle`.
While the object is being made, or its handle is being closed, it is one thread's own; a
detached object is left to its own thread; and otherwise the handle is open (`HandleOk`).

This module states the invariant and what keeps it: a step that has no part in a handle
leaves what holds of it (`HandleOk.pass`), a step of the owner has to put the object into
one of the states above (`HandleOk.own`), and the two are put together for all handles
(`inv_pass`, `inv_one`, `inv_own`).
-/

namespace Libuzi

open Runs Threads

namespace Thread

namespace Lifetime

/-! ### Who answers for a handle -/

/-- The entry of an object that has been started is there, and one that has not has no
`pthread_t` by which it could be taken for another. -/
def Object.Entered (o : Object) (entered : Prop) : Prop :=
  (o.started = true → entered) ∧ (o.started = false → o.thread = 0)

/-- What holds in `cleanup_handle`, where `entered` says that the object has its entry. -/
def CleanupPc.Fine (entered : Prop) : CleanupPc → Prop
  | .contains d | .remove d => entered ∧ d ≠ none
  | .free => ¬ entered
  | _ => entered

/-- What holds in `CreateThread` for the new object `o`. -/
def CreatePc.Fine (o : Object) (entered : Prop) : CreatePc → Prop
  | .pthreadCreate => o.started = true ∧ o.pthread = .none ∧ ¬ entered
  | .readAdd | .add _ => o.started = true ∧ ¬ entered
  | .finish => o.Entered entered
  | .fail => ¬ entered
  | _ => o.started = false ∧ o.thread = 0 ∧ o.pthread = .none ∧ ¬ entered

/-- What holds in `ThreadCloseHandle` for the object `o`. -/
def ClosePc.Fine (o : Object) (entered : Prop) : ClosePc → Prop
  | .test | .readContains | .contains _ => o.Entered entered
  | .cleanup pc => pc.Fine entered
  | _ => entered

/-- The places of `ThreadCloseHandle` at which the object is still its own: until it is left to
the thread, or freed. -/
def ClosePc.owns : ClosePc → Bool
  | .test | .readContains | .contains _ | .readLock | .lock _ | .poll | .join | .storeDetached
  | .cleanup _ => true
  | _ => false

/-- The handle whose object is the thread's own, in a call. -/
def Pc.owns : Pc → Option ℕ
  | .create h _ _ => some h
  | .close h pc => if pc.owns then some h else none
  | _ => none

/-- What holds for the object that is the thread's own. -/
def Pc.Fine (o : Object) (entered : Prop) : Pc → Prop
  | .create _ _ pc => pc.Fine o entered
  | .close _ pc => pc.Fine o entered
  | _ => True

/-- The thread of an object runs, or has run. -/
def PThread.begun : PThread → Bool
  | .running | .ended => true
  | _ => false

/-- A change of an object that nobody but its own thread relies on. -/
structure Object.Like (o o' : Object) : Prop where
  started : o'.started = o.started
  detached : o'.detached = o.detached
  thread : o'.thread = o.thread
  none : o'.pthread = .none ↔ o.pthread = .none
  begun : o.pthread.begun = true → o'.pthread.begun = true

theorem Object.Like.refl (o : Object) : o.Like o := ⟨rfl, rfl, rfl, Iff.rfl, id⟩

theorem Object.Like.entered {o o' : Object} (h : o.Like o') {entered : Prop}
    (he : o.Entered entered) : o'.Entered entered := by
  rwa [Object.Entered, h.started, h.thread]

theorem Pc.Fine.like {o o' : Object} (h : o.Like o') {entered : Prop} {pc : Pc}
    (hf : pc.Fine o entered) : pc.Fine o' entered := by
  cases pc with
  | create _ _ pc =>
    cases pc with
    | finish => exact h.entered hf
    | fail => exact hf
    | readAdd | add => exact ⟨h.started.trans hf.1, hf.2⟩
    | pthreadCreate => exact ⟨h.started.trans hf.1, h.none.mpr hf.2.1, hf.2.2⟩
    | _ => exact ⟨h.started.trans hf.1, h.thread.trans hf.2.1, h.none.mpr hf.2.2.1, hf.2.2.2⟩
  | close _ pc =>
    cases pc with
    | test | readContains | contains => exact h.entered hf
    | _ => exact hf
  | idle => exact hf
  | launch _ => exact hf
  | ended => exact hf

section Law

variable {ι : Type*}

/-- **What holds of a handle.** -/
structure HandleOk (c : Config ι (Shared ι) Local) (h : ℕ) : Prop where
  /-- A thread whose own the object is: the handle is not open, and the object not detached. -/
  owned : ∀ j, (c.locals j).pc.owns = some h → c.shared.isOpen h = false ∧
    ∃ o, c.shared.object h = some o ∧ o.detached = false ∧
      (c.locals j).pc.Fine o ((h, h) ∈ c.shared.entries)
  owner : ∀ j k, (c.locals j).pc.owns = some h → (c.locals k).pc.owns = some h → j = k
  opened : c.shared.isOpen h = true → ∃ o, c.shared.object h = some o ∧ o.detached = false ∧
    o.Entered ((h, h) ∈ c.shared.entries)
  /-- The thread of the object. -/
  running : ∀ j, (c.locals j).self = some h → c.shared.heap h ≠ .unallocated ∧
    ∀ o, c.shared.object h = some o → o.pthread.begun = true
  runner : ∀ j k, (c.locals j).self = some h → (c.locals k).self = some h → j = k
  cleaning : ∀ j pc, (c.locals j).self = some h → (c.locals j).pc = .launch (.cleanup pc) →
    (∃ o, c.shared.object h = some o ∧ o.detached = true) ∧ pc.Fine ((h, h) ∈ c.shared.entries)
  started : ∀ o, c.shared.object h = some o → o.pthread ≠ .none → o.started = true
  /-- A detached object keeps its entry until its thread has removed it. -/
  detached : ∀ o, c.shared.object h = some o → o.detached = true →
    (h, h) ∈ c.shared.entries ∨
      ∃ j, (c.locals j).self = some h ∧ (c.locals j).pc = .launch (.cleanup .free)
  entry : (h, h) ∈ c.shared.entries → ∃ o, c.shared.object h = some o ∧ o.thread ≠ 0

/-- **The invariant**: of the dictionaries, of every handle, and of the entries. -/
structure Inv (c : Config ι (Shared ι) Local) : Prop where
  dict : DictInv c
  handle : ∀ h, HandleOk c h
  pairs : ∀ e ∈ c.shared.entries, e.1 = e.2
  distinct : ListDictionary.Distinct c.shared.idOf c.shared.entries

/-- The object, if there is one, is as good as before. -/
def SameObject (s s' : Shared ι) (h : ℕ) : Prop :=
  s'.heap h = s.heap h ∨ ∃ o o', s.heap h = .live o ∧ s'.heap h = .live o' ∧ o.Like o'

theorem SameObject.object {s s' : Shared ι} {h : ℕ} (hobj : SameObject s s' h) {o : Object}
    (ho : s.object h = some o) : ∃ o', s'.object h = some o' ∧ o.Like o' := by
  rcases hobj with heq | ⟨o₁, o', h₁, h', hlike⟩
  · exact ⟨o, by rwa [Shared.object, heq], .refl o⟩
  · rw [Shared.object, h₁] at ho
    obtain rfl := Option.some.inj ho
    exact ⟨o', by rw [Shared.object, h']; rfl, hlike⟩

theorem SameObject.object_back {s s' : Shared ι} {h : ℕ} (hobj : SameObject s s' h) {o' : Object}
    (ho' : s'.object h = some o') : ∃ o, s.object h = some o ∧ o.Like o' := by
  rcases hobj with heq | ⟨o, o₁, h₁, h', hlike⟩
  · exact ⟨o', by rwa [Shared.object, ← heq], .refl o'⟩
  · rw [Shared.object, h'] at ho'
    obtain rfl := Option.some.inj ho'
    exact ⟨o, by rw [Shared.object, h₁]; rfl, hlike⟩

variable [DecidableEq ι] {c : Config ι (Shared ι) Local} {i : ι} {a : Act} {s' : Shared ι}
  {l' : Local} {h : ℕ}

/-- At most one thread has a property after a move, if the mover had it before. -/
theorem unique_move {P : Local → Prop} (hold : ∀ j k, P (c.locals j) → P (c.locals k) → j = k)
    (hi : P l' → P (c.locals i) ∨ ∀ j, ¬ P (c.locals j)) :
    ∀ j k, P ((c.move i s' l').locals j) → P ((c.move i s' l').locals k) → j = k := by
  have hother : ∀ k, k ≠ i → P l' → ¬ P (c.locals k) := by
    intro k hki hl' hk
    rcases hi hl' with hl | hnone
    · exact hki (hold k i hk hl)
    · exact hnone k hk
  intro j k hj hk
  by_cases hji : j = i
  · by_cases hki : k = i
    · exact hji.trans hki.symm
    · rw [hji, Config.move_self] at hj
      rw [Config.move_of_ne _ _ _ hki] at hk
      exact absurd hk (hother k hki hj)
  · rw [Config.move_of_ne _ _ _ hji] at hj
    by_cases hki : k = i
    · rw [hki, Config.move_self] at hk
      exact absurd hj (hother j hji hk)
    · rw [Config.move_of_ne _ _ _ hki] at hk
      exact hold j k hj hk

/-- **A step that leaves a handle as it is**: its object is as good as before, its entry and its
openness are the same, and the thread that moves has no new part in it, unless it is its
thread and has just begun. -/
theorem HandleOk.pass (hh : HandleOk c h) (hobj : SameObject c.shared s' h)
    (hopen : s'.isOpen h = c.shared.isOpen h)
    (hent : (h, h) ∈ s'.entries ↔ (h, h) ∈ c.shared.entries)
    (hself : l'.self = some h → (c.locals i).self = some h ∨
      (∀ j, (c.locals j).self ≠ some h) ∧ ∃ o', s'.heap h = .live o' ∧ o'.pthread.begun = true)
    (howns : l'.pc.owns = some h → (c.locals i).pc.owns = some h ∧ ∀ o,
      c.shared.object h = some o → (c.locals i).pc.Fine o ((h, h) ∈ c.shared.entries) →
      l'.pc.Fine o ((h, h) ∈ c.shared.entries))
    (hclean : ∀ pc, l'.self = some h → l'.pc = .launch (.cleanup pc) →
      (∃ o, c.shared.object h = some o ∧ o.detached = true) ∧
        pc.Fine ((h, h) ∈ c.shared.entries))
    (hfree : (c.locals i).self = some h → (c.locals i).pc ≠ .launch (.cleanup .free)) :
    HandleOk (c.move i s' l') h := by
  have hfine : ∀ l : Local, (∃ o, c.shared.object h = some o ∧ o.detached = false ∧
      l.pc.Fine o ((h, h) ∈ c.shared.entries)) → ∃ o', s'.object h = some o' ∧
      o'.detached = false ∧ l.pc.Fine o' ((h, h) ∈ s'.entries) := by
    rintro l ⟨o, ho, hd, hf⟩
    obtain ⟨o', ho', hlike⟩ := hobj.object ho
    exact ⟨o', ho', hlike.detached.trans hd, by rw [hent]; exact hf.like hlike⟩
  constructor
  · intro j hj
    rcases eq_or_ne j i with rfl | hji
    · rw [Config.move_self] at hj ⊢
      obtain ⟨hl, hf⟩ := howns hj
      obtain ⟨hop, o, ho, hd, hfo⟩ := hh.owned j hl
      exact ⟨hopen.trans hop, hfine l' ⟨o, ho, hd, hf o ho hfo⟩⟩
    · rw [Config.move_of_ne _ _ _ hji] at hj ⊢
      obtain ⟨hop, hrest⟩ := hh.owned j hj
      exact ⟨hopen.trans hop, hfine _ hrest⟩
  · exact unique_move (P := fun l => l.pc.owns = some h) hh.owner fun hl' => .inl (howns hl').1
  · intro hop
    obtain ⟨o, ho, hd, he⟩ := hh.opened (hopen.symm.trans hop)
    obtain ⟨o', ho', hlike⟩ := hobj.object ho
    refine ⟨o', ho', hlike.detached.trans hd, ?_⟩
    rw [Config.move_shared, hent]
    exact hlike.entered he
  · have hrun : ∀ j, (c.locals j).self = some h → s'.heap h ≠ .unallocated ∧
        ∀ o, s'.object h = some o → o.pthread.begun = true := by
      intro j hj
      obtain ⟨hal, hbegun⟩ := hh.running j hj
      refine ⟨?_, ?_⟩
      · rcases hobj with heq | ⟨o, o', -, h', -⟩
        · rwa [heq]
        · simp [h']
      · intro o' ho'
        obtain ⟨o, ho, hlike⟩ := hobj.object_back ho'
        exact hlike.begun (hbegun o ho)
    intro j hj
    rcases eq_or_ne j i with rfl | hji
    · rw [Config.move_self] at hj
      rcases hself hj with hj | ⟨-, o', ho', hbegun⟩
      · exact hrun j hj
      · refine ⟨by simp [ho'], fun o ho => ?_⟩
        rw [Config.move_shared, Shared.object, ho'] at ho
        obtain rfl := Option.some.inj ho
        exact hbegun
    · rw [Config.move_of_ne _ _ _ hji] at hj
      exact hrun j hj
  · exact unique_move (P := fun l => l.self = some h) hh.runner fun hl' =>
      (hself hl').imp id And.left
  · have hdet : (∃ o, c.shared.object h = some o ∧ o.detached = true) →
        ∃ o', s'.object h = some o' ∧ o'.detached = true := by
      rintro ⟨o, ho, hd⟩
      obtain ⟨o', ho', hlike⟩ := hobj.object ho
      exact ⟨o', ho', hlike.detached.trans hd⟩
    intro j pc hj hpc
    rw [Config.move_shared, hent]
    rcases eq_or_ne j i with rfl | hji
    · rw [Config.move_self] at hj hpc
      exact (hclean pc hj hpc).imp hdet id
    · rw [Config.move_of_ne _ _ _ hji] at hj hpc
      exact (hh.cleaning j pc hj hpc).imp hdet id
  · intro o' ho' hne
    obtain ⟨o, ho, hlike⟩ := hobj.object_back ho'
    exact hlike.started.trans (hh.started o ho fun hn => hne (hlike.none.mpr hn))
  · intro o' ho' hd
    obtain ⟨o, ho, hlike⟩ := hobj.object_back ho'
    rw [Config.move_shared, hent]
    refine (hh.detached o ho (hlike.detached.symm.trans hd)).imp id ?_
    rintro ⟨j, hj, hpc⟩
    have hji : j ≠ i := by
      rintro rfl
      exact hfree hj hpc
    exact ⟨j, by rw [Config.move_of_ne _ _ _ hji]; exact ⟨hj, hpc⟩⟩
  · intro he
    obtain ⟨o, ho, hne⟩ := hh.entry (hent.mp he)
    obtain ⟨o', ho', hlike⟩ := hobj.object ho
    exact ⟨o', ho', by rwa [hlike.thread]⟩

/-- **A step of the thread whose own the object is**, before or after the step. -/
theorem HandleOk.own (hh : HandleOk c h)
    (honly : ∀ j, j ≠ i → (c.locals j).pc.owns ≠ some h)
    (hdet : ∀ o, c.shared.object h = some o → o.detached = false)
    (hself : l'.self = (c.locals i).self) (hpc : ∀ pc, l'.pc ≠ .launch pc)
    (howns : l'.pc.owns = some h → s'.isOpen h = false ∧ ∃ o', s'.object h = some o' ∧
      o'.detached = false ∧ l'.pc.Fine o' ((h, h) ∈ s'.entries))
    (hopen : s'.isOpen h = true → ∃ o', s'.object h = some o' ∧ o'.detached = false ∧
      o'.Entered ((h, h) ∈ s'.entries))
    (hal : s'.heap h ≠ .unallocated)
    (hbegun : ∀ o', s'.object h = some o' → ∀ j, (c.locals j).self = some h →
      o'.pthread.begun = true)
    (hstarted : ∀ o', s'.object h = some o' → o'.pthread ≠ .none → o'.started = true)
    (hdet' : ∀ o', s'.object h = some o' → o'.detached = true → (h, h) ∈ s'.entries)
    (hentry : (h, h) ∈ s'.entries → ∃ o', s'.object h = some o' ∧ o'.thread ≠ 0) :
    HandleOk (c.move i s' l') h := by
  constructor
  · intro j hj
    rcases eq_or_ne j i with rfl | hji
    · rw [Config.move_self] at hj ⊢
      exact howns hj
    · rw [Config.move_of_ne _ _ _ hji] at hj
      exact absurd hj (honly j hji)
  · intro j k hj hk
    by_contra hjk
    rcases eq_or_ne j i with rfl | hji
    · rw [Config.move_of_ne _ _ _ fun hkj => hjk hkj.symm] at hk
      exact honly k (fun hkj => hjk hkj.symm) hk
    · rw [Config.move_of_ne _ _ _ hji] at hj
      exact honly j hji hj
  · exact hopen
  · intro j hj
    refine ⟨hal, fun o' ho' => ?_⟩
    rcases eq_or_ne j i with rfl | hji
    · rw [Config.move_self, hself] at hj
      exact hbegun o' ho' j hj
    · rw [Config.move_of_ne _ _ _ hji] at hj
      exact hbegun o' ho' j hj
  · refine unique_move (P := fun l => l.self = some h) hh.runner fun hl' => .inl ?_
    exact hself.symm.trans hl'
  · intro j pc hj hpcj
    rcases eq_or_ne j i with rfl | hji
    · rw [Config.move_self] at hpcj
      exact absurd hpcj (hpc _)
    · rw [Config.move_of_ne _ _ _ hji] at hj hpcj
      obtain ⟨⟨o, ho, hd⟩, -⟩ := hh.cleaning j pc hj hpcj
      exact absurd ((hdet o ho).symm.trans hd) Bool.false_ne_true
  · exact hstarted
  · exact fun o' ho' hd => .inl (hdet' o' ho' hd)
  · exact hentry

omit [DecidableEq ι] in
/-- Where a detached object is cleaned up, nobody owns it, and its handle is closed. -/
theorem HandleOk.not_owned (hh : HandleOk c h) {o : Object} (ho : c.shared.object h = some o)
    (hd : o.detached = true) :
    (∀ j, (c.locals j).pc.owns ≠ some h) ∧ c.shared.isOpen h = false := by
  have hne : ∀ o', c.shared.object h = some o' → o'.detached ≠ false := by
    intro o' ho' hd'
    obtain rfl := Option.some.inj (ho.symm.trans ho')
    exact absurd (hd.symm.trans hd') (by decide)
  refine ⟨fun j hj => ?_, ?_⟩
  · obtain ⟨-, o', ho', hd', -⟩ := hh.owned j hj
    exact hne o' ho' hd'
  · rcases Bool.eq_false_or_eq_true (c.shared.isOpen h) with hop | hop
    · obtain ⟨o', ho', hd', -⟩ := hh.opened hop
      exact absurd hd' (hne o' ho')
    · exact hop

/-- **A step of the thread that removes the entry of its own detached object, or frees it.** -/
theorem HandleOk.release {pc : CleanupPc} (hh : HandleOk c h)
    (hi : (c.locals i).self = some h) (hpc : (c.locals i).pc = .launch (.cleanup pc))
    (hself : l'.self = some h) (howns : l'.pc.owns = none)
    (hopen : s'.isOpen h = c.shared.isOpen h) (hent : (h, h) ∉ s'.entries)
    (hobj : s'.heap h = c.shared.heap h ∧ l'.pc = .launch (.cleanup .free) ∨
      s'.heap h = .freed ∧ ∀ pc, l'.pc ≠ .launch (.cleanup pc)) :
    HandleOk (c.move i s' l') h := by
  obtain ⟨⟨o, ho, hd⟩, -⟩ := hh.cleaning i pc hi hpc
  obtain ⟨hnone, hclosed⟩ := hh.not_owned ho hd
  have hback : ∀ o', s'.object h = some o' → o' = o ∧ l'.pc = .launch (.cleanup .free) := by
    intro o' ho'
    rcases hobj with ⟨heq, hpc'⟩ | ⟨hfreed, -⟩
    · rw [Shared.object, heq] at ho'
      exact ⟨Option.some.inj (ho'.symm.trans ho), hpc'⟩
    · rw [Shared.object, hfreed] at ho'
      exact absurd ho' (by simp [Block.value])
  have hnone' : ∀ j, ((c.move i s' l').locals j).pc.owns ≠ some h := by
    intro j
    rcases eq_or_ne j i with rfl | hji
    · rw [Config.move_self, howns]
      exact (Option.some_ne_none h).symm
    · rw [Config.move_of_ne _ _ _ hji]
      exact hnone j
  have hrunner : ∀ j, ((c.move i s' l').locals j).self = some h → j = i := by
    intro j hj
    by_contra hji
    rw [Config.move_of_ne _ _ _ hji] at hj
    exact hji (hh.runner j i hj hi)
  constructor
  · exact fun j hj => absurd hj (hnone' j)
  · exact fun j _ hj => absurd hj (hnone' j)
  · intro hop
    exact absurd ((hopen.trans hclosed).symm.trans hop) Bool.false_ne_true
  · intro j _
    refine ⟨?_, fun o' ho' => ?_⟩
    · rcases hobj with ⟨heq, -⟩ | ⟨hfreed, -⟩
      · rw [Config.move_shared, heq]
        exact (hh.running i hi).1
      · simp [hfreed]
    · obtain ⟨rfl, -⟩ := hback o' ho'
      exact (hh.running i hi).2 o' ho
  · exact fun j k hj hk => (hrunner j hj).trans (hrunner k hk).symm
  · intro j pc' hj hpc'
    obtain rfl := hrunner j hj
    rw [Config.move_self] at hpc'
    rcases hobj with ⟨heq, hfree⟩ | ⟨-, hne⟩
    · obtain rfl : CleanupPc.free = pc' := by
        rw [hfree] at hpc'
        simpa using hpc'
      exact ⟨⟨o, by rw [Config.move_shared, Shared.object, heq]; exact ho, hd⟩, hent⟩
    · exact absurd hpc' (hne pc')
  · intro o' ho'
    obtain ⟨rfl, -⟩ := hback o' ho'
    exact hh.started o' ho
  · intro o' ho' _
    obtain ⟨-, hfree⟩ := hback o' ho'
    exact .inr ⟨i, by rw [Config.move_self]; exact ⟨hself, hfree⟩⟩
  · exact fun he => absurd he hent

/-! ### What a step does to the entries -/

/-- The next step adds or removes an entry, unless it fails. -/
def Pc.edits : Pc → Bool
  | .create _ _ (.add (some _)) | .close _ (.cleanup (.remove (some _)))
  | .launch (.cleanup (.remove (some _))) => true
  | _ => false

/-- **The other steps leave the entries as they are**, although they may replace the dictionary
that holds them. -/
theorem entries_step (hi : DictInv c) (hok : Undisturbed c (i, a))
    (hs : next i a c.shared (c.locals i) = some (s', l'))
    (hedits : (c.locals i).pc.edits = false) : s'.entries = c.shared.entries := by
  cases dictStep_of_next hs with
  | keep hlist hdicts => exact entries_congr hlist hdicts
  | touch d D D' hoperand hD hs' hitems =>
    subst hs'
    have hlist := ((hi.each i).operand d hoperand).1
    rw [entries_of_live hlist hD, entries_of_live (s := c.shared.setDict d _) hlist
      (setDict_self ..)]
    rcases hitems with heq | ⟨h, suspended, hpc, -⟩ | ⟨h, o, -, ⟨hpc, -⟩ | ⟨-, hpc, -⟩, -⟩
    · exact heq
    · simp [hpc, Pc.edits] at hedits
    · simp [hpc, Pc.edits] at hedits
    · simp [hpc, Pc.edits] at hedits
  | new d h suspended hpc hpc' hd hs' =>
    subst hs'
    exact entries_setDict_of_ne _ (hi.threadList_ne hd)
  | store d h suspended hpc hpc' hs' =>
    subst hs'
    rw [entries_of_none (hok.1 (by rw [hpc]; rfl))]
    cases d with
    | none => exact entries_of_none rfl
    | some d =>
      obtain ⟨-, D, hD, hnil⟩ := (hi.each i).storing d (by rw [hpc]; rfl)
      exact (entries_of_live (s := { c.shared with threadList := some d }) rfl hD).trans hnil
  | free d D h hpc hpc' hD hs' =>
    subst hs'
    have hlist := ((hi.each i).operand d (by rw [hpc]; rfl)).1
    have hnil : D.items = [] :=
      (hok.2.2.1 d (by rw [hpc]; rfl)).1 D (by rw [hD]; rfl)
    rw [entries_of_live hlist hD, hnil, Shared.entries]
    simp [Shared.setDict, hlist, Block.value]
  | null d h hpc hpc' hs' =>
    subst hs'
    rw [entries_of_none rfl]
    rcases hok.2.2.2.1 d (by rw [hpc]; rfl) with hnull | hfreed
    · exact (entries_of_none hnull).symm
    · cases d with
      | none => exact (entries_of_none hfreed).symm
      | some d =>
        have hd := (hi.each i).nulling d (by rw [hpc]; rfl)
        simp [Shared.entries, hfreed, hd, Block.value]

omit [DecidableEq ι] in
/-- Entries that keep their `pthread_t`s stay distinct. -/
theorem distinct_congr {s s' : Shared ι} {d : List (ℕ × ℕ)}
    (h : ListDictionary.Distinct s.idOf d) (hid : ∀ e ∈ d, s'.idOf e.1 = s.idOf e.1) :
    ListDictionary.Distinct s'.idOf d := by
  refine List.Pairwise.imp_of_mem (fun {x y} hx hy hne => ?_) h
  rwa [hid x hx, hid y hy]

omit [DecidableEq ι] in
theorem SameObject.idOf {s s' : Shared ι} (hobj : SameObject s s' h) : s'.idOf h = s.idOf h := by
  rw [Shared.idOf, Shared.idOf]
  rcases hobj with heq | ⟨o, o', h₁, h', hlike⟩
  · rw [Shared.object, heq, Shared.object]
  · rw [Shared.object, h', Shared.object, h₁]
    exact congrArg some hlike.thread

omit [DecidableEq ι] in
theorem sameObject_set {s : Shared ι} {o o' : Object} (ho : s.object h = some o)
    (hlike : o.Like o') (k : ℕ) : SameObject s (s.setObject h (.live o')) k := by
  rcases eq_or_ne k h with rfl | hk
  · exact .inr ⟨o, o', value_eq_some.mp ho, Function.update_self .., hlike⟩
  · exact .inl (Function.update_of_ne hk ..)

omit [DecidableEq ι] in
/-- An object without an entry may change as it likes. -/
theorem Inv.distinct_set (hi : Inv c) {b : Block Object} (hne : (h, h) ∉ c.shared.entries) :
    ListDictionary.Distinct (c.shared.setObject h b).idOf c.shared.entries := by
  refine distinct_congr hi.distinct fun e he => ?_
  have hek : e.1 ≠ h := by
    rintro rfl
    exact hne (by rwa [show e = (e.1, e.1) from Prod.ext rfl (hi.pairs e he).symm] at he)
  rw [Shared.idOf, setObject_object_of_ne _ hek, Shared.idOf]

omit [DecidableEq ι] in
theorem HandleOk.thread_ne (hh : HandleOk c h) (he : (h, h) ∈ c.shared.entries) {o : Object}
    (ho : c.shared.object h = some o) : o.thread ≠ 0 := by
  obtain ⟨o₁, ho₁, hne⟩ := hh.entry he
  obtain rfl := Option.some.inj (ho.symm.trans ho₁)
  exact hne

/-- **A step that leaves every handle as it is.** -/
theorem inv_pass (hi : Inv c) (hd : DictInv (c.move i s' l'))
    (hobj : ∀ h, SameObject c.shared s' h) (hopen : s'.isOpen = c.shared.isOpen)
    (hent : s'.entries = c.shared.entries) (hself : l'.self = (c.locals i).self)
    (howns : ∀ h, l'.pc.owns = some h → (c.locals i).pc.owns = some h ∧ ∀ o,
      c.shared.object h = some o → (c.locals i).pc.Fine o ((h, h) ∈ c.shared.entries) →
      l'.pc.Fine o ((h, h) ∈ c.shared.entries))
    (hclean : ∀ h pc, l'.self = some h → l'.pc = .launch (.cleanup pc) →
      (∃ o, c.shared.object h = some o ∧ o.detached = true) ∧
        pc.Fine ((h, h) ∈ c.shared.entries))
    (hfree : (c.locals i).pc ≠ .launch (.cleanup .free)) : Inv (c.move i s' l') := by
  refine ⟨hd, fun h => ?_, ?_, ?_⟩
  · exact (hi.handle h).pass (hobj h) (congrFun hopen h) (by rw [hent])
      (fun hl' => .inl (hself.symm.trans hl')) (howns h) (hclean h) fun _ => hfree
  · rw [Config.move_shared, hent]
    exact hi.pairs
  · rw [Config.move_shared, hent]
    exact distinct_congr hi.distinct fun e _ => (hobj e.1).idOf

/-- **A step that concerns one handle**: the others are left as they are. -/
theorem inv_one (hi : Inv c) (hd : DictInv (c.move i s' l'))
    (hheap : ∀ k, k ≠ h → s'.heap k = c.shared.heap k)
    (hopen : ∀ k, k ≠ h → s'.isOpen k = c.shared.isOpen k)
    (hent : ∀ k, k ≠ h → ((k, k) ∈ s'.entries ↔ (k, k) ∈ c.shared.entries))
    (hself : l'.self = (c.locals i).self ∨ l'.self = some h)
    (howns : ∀ k, l'.pc.owns = some k → k = h)
    (hlaunch : ∀ pc, l'.pc = .launch pc → l'.self = some h)
    (hfree : (c.locals i).pc = .launch (.cleanup .free) → (c.locals i).self = some h)
    (hh : HandleOk (c.move i s' l') h) (hpairs : ∀ e ∈ s'.entries, e.1 = e.2)
    (hdistinct : ListDictionary.Distinct s'.idOf s'.entries) : Inv (c.move i s' l') := by
  refine ⟨hd, fun k => ?_, hpairs, hdistinct⟩
  rcases eq_or_ne k h with rfl | hk
  · exact hh
  have hne : ∀ {x : Option ℕ}, x = some h → x ≠ some k := by
    rintro _ rfl hkh
    exact hk (Option.some.inj hkh).symm
  refine (hi.handle k).pass (.inl (hheap k hk)) (hopen k hk) (hent k hk) ?_ ?_ ?_ ?_
  · intro hl'
    rcases hself with heq | heq
    · exact .inl (heq.symm.trans hl')
    · exact absurd hl' (hne heq)
  · exact fun hl' => absurd (howns k hl') hk
  · exact fun pc hl' hpc => absurd hl' (hne (hlaunch _ hpc))
  · exact fun hl hpc => hne (hfree hpc) hl

/-! ### The dictionary in hand -/

omit [DecidableEq ι] in
theorem threadList_ne_none {s : Shared ι} {e : ℕ × ℕ} (he : e ∈ s.entries) :
    s.threadList ≠ none := by
  intro hnull
  rw [entries_of_none hnull] at he
  exact List.not_mem_nil he

omit [DecidableEq ι] in
/-- **A removal removes its own entry.** -/
theorem Inv.mem_remove_iff (hi : Inv c) {d : ℕ} {D : Dict ι} {o : Object}
    (hlist : c.shared.threadList = some d) (hD : c.shared.dicts d = .live D)
    (ho : c.shared.object h = some o) (he : (h, h) ∈ c.shared.entries) (e : ℕ × ℕ) :
    e ∈ ListDictionary.remove (c.shared.keyEquals D h o) D.items ↔
      e ∈ c.shared.entries ∧ e ≠ (h, h) := by
  have hitems : c.shared.entries = D.items := entries_of_live hlist hD
  have hdistinct := hi.distinct
  rw [hitems] at he hdistinct ⊢
  rcases Bool.eq_false_or_eq_true D.compares with hc | hc
  · have hkey : c.shared.keyEquals D h o =
        fun key => decide (c.shared.idOf key = c.shared.idOf (h, h).1) := by
      funext key
      rw [Shared.keyEquals, if_pos hc, show c.shared.idOf (h, h).1 = some o.thread by
        rw [Shared.idOf, ho]; rfl]
    rw [hkey]
    exact ListDictionary.mem_remove_iff hdistinct he
  · have hkey : c.shared.keyEquals D h o = fun key => decide (id key = id (h, h).1) := by
      funext key
      rw [Shared.keyEquals, if_neg (by simp [hc])]
      rfl
    have hkeys : ListDictionary.Distinct id D.items :=
      hdistinct.imp fun hne heq => hne (congrArg _ heq)
    rw [hkey]
    exact ListDictionary.mem_remove_iff hkeys he

/-- What `ListDictionary_Remove` does, for an object that has its entry. -/
theorem Inv.remove_spec (hi : Inv c) {d : ℕ} (hop : (c.locals i).pc.operand = some d)
    (he : (h, h) ∈ c.shared.entries) (hs : c.shared.remove i h (some d) = some s') :
    s'.heap = c.shared.heap ∧ s'.isOpen = c.shared.isOpen ∧
      (∀ e, e ∈ s'.entries ↔ e ∈ c.shared.entries ∧ e ≠ (h, h)) ∧
      ListDictionary.Distinct s'.idOf s'.entries := by
  have hlist := ((hi.dict.each i).operand d hop).1
  obtain ⟨o, ho, hs⟩ := Option.bind_eq_some_iff.mp hs
  obtain ⟨D, hD, rfl⟩ := Option.map_eq_some_iff.mp hs
  have hentries := entries_of_live (s := c.shared.setDict d (.live { D with
    items := ListDictionary.remove (c.shared.keyEquals D h o) D.items })) hlist (setDict_self ..)
  refine ⟨rfl, rfl, ?_, ?_⟩
  · rw [hentries]
    exact hi.mem_remove_iff hlist (enter_eq_some hD) ho he
  · rw [hentries]
    refine ListDictionary.Distinct.remove ?_ _
    rw [← entries_of_live hlist (enter_eq_some hD)]
    exact hi.distinct

omit [DecidableEq ι] in
theorem Inv.keyEquals_self (c : Config ι (Shared ι) Local) (D : Dict ι) {o : Object}
    (ho : c.shared.object h = some o) : c.shared.keyEquals D h o h = true := by
  rw [Shared.keyEquals]
  split_ifs
  · exact decide_eq_true (by rw [Shared.idOf, ho]; rfl)
  · exact decide_eq_true rfl

/-- An entry that is there is found. -/
theorem contains_of_entry {d : ℕ} {D : Dict ι} {b : Bool}
    (hlist : c.shared.threadList = some d) (hD : c.shared.dicts d = .live D)
    (he : (h, h) ∈ c.shared.entries) (hb : c.shared.contains i h (some d) = some b) :
    b = true := by
  obtain ⟨o, ho, hb⟩ := Option.bind_eq_some_iff.mp hb
  obtain ⟨D', hD', rfl⟩ := Option.map_eq_some_iff.mp hb
  obtain rfl : D = D' := by simpa using hD.symm.trans (enter_eq_some hD')
  rw [entries_of_live hlist hD] at he
  exact List.any_eq_true.mpr ⟨(h, h), he, Inv.keyEquals_self c D ho⟩

/-- **What is found is the object's own entry**, if it has been started, and nothing is found
otherwise. -/
theorem Inv.entry_of_contains (hi : Inv c) {d : ℕ} {D : Dict ι} {o : Object}
    (hlist : c.shared.threadList = some d) (hD : c.shared.dicts d = .live D)
    (ho : c.shared.object h = some o) (hentered : o.Entered ((h, h) ∈ c.shared.entries))
    (hb : c.shared.contains i h (some d) = some true) : (h, h) ∈ c.shared.entries := by
  obtain ⟨o', ho', hb⟩ := Option.bind_eq_some_iff.mp hb
  obtain rfl := Option.some.inj (ho.symm.trans ho')
  obtain ⟨D', hD', hany⟩ := Option.map_eq_some_iff.mp hb
  obtain rfl : D = D' := by simpa using hD.symm.trans (enter_eq_some hD')
  obtain ⟨e, he, hkey⟩ := List.any_eq_true.mp hany
  rw [← entries_of_live hlist hD] at he
  have hpair : e = (e.1, e.1) := Prod.ext rfl (hi.pairs e he).symm
  rcases Bool.eq_false_or_eq_true o.started with hs | hs
  · exact hentered.1 hs
  rw [Shared.keyEquals] at hkey
  split_ifs at hkey with hc
  · -- An object without a `pthread_t` is looked for by 0, which is nobody's.
    have hid : c.shared.idOf e.1 = some 0 := by
      rw [of_decide_eq_true hkey, hentered.2 hs]
    obtain ⟨o', ho', hne⟩ := (hi.handle e.1).entry (hpair ▸ he)
    rw [Shared.idOf, ho'] at hid
    exact absurd (Option.some.inj hid) hne
  · rw [← of_decide_eq_true hkey]
    exact hpair ▸ he

/-! ### Steps of the owner -/

/-- **A step of the owner after which the object is there.** -/
theorem inv_own (o' : Object) (hi : Inv c)
    (honly : ∀ j, j ≠ i → (c.locals j).pc.owns ≠ some h)
    (hdet : ∀ o, c.shared.object h = some o → o.detached = false)
    (hnl : ∀ pc, (c.locals i).pc ≠ .launch pc) (hd : DictInv (c.move i s' l'))
    (hheap : ∀ k, k ≠ h → s'.heap k = c.shared.heap k)
    (hopen : ∀ k, k ≠ h → s'.isOpen k = c.shared.isOpen k)
    (hent : ∀ k, k ≠ h → ((k, k) ∈ s'.entries ↔ (k, k) ∈ c.shared.entries))
    (hpairs : ∀ e ∈ s'.entries, e.1 = e.2)
    (hdistinct : ListDictionary.Distinct s'.idOf s'.entries)
    (hself : l'.self = (c.locals i).self) (hnl' : ∀ pc, l'.pc ≠ .launch pc)
    (howns : ∀ k, l'.pc.owns = some k → k = h) (ho' : s'.object h = some o')
    (hcase : l'.pc.owns = some h ∧ s'.isOpen h = false ∧ o'.detached = false ∧
        l'.pc.Fine o' ((h, h) ∈ s'.entries) ∨
      l'.pc.owns ≠ some h ∧ o'.detached = false ∧ o'.Entered ((h, h) ∈ s'.entries) ∨
      l'.pc.owns ≠ some h ∧ s'.isOpen h = false ∧ (h, h) ∈ s'.entries)
    (hbegun : ∀ j, (c.locals j).self = some h → o'.pthread.begun = true)
    (hstarted : o'.pthread ≠ .none → o'.started = true)
    (hentry : (h, h) ∈ s'.entries → o'.thread ≠ 0) : Inv (c.move i s' l') := by
  have hobj : ∀ o, s'.object h = some o → o = o' := fun o ho => Option.some.inj (ho.symm.trans ho')
  refine inv_one hi hd hheap hopen hent (.inl hself) howns
    (fun pc hpc => absurd hpc (hnl' pc)) (fun hpc => absurd hpc (hnl _)) ?_ hpairs hdistinct
  refine (hi.handle h).own honly hdet hself hnl' ?_ ?_ ?_ ?_ ?_ ?_ ?_
  · intro hl'
    rcases hcase with ⟨-, hop, hdo, hf⟩ | ⟨hne, -⟩ | ⟨hne, -⟩
    · exact ⟨hop, o', ho', hdo, hf⟩
    · exact absurd hl' hne
    · exact absurd hl' hne
  · intro hop
    rcases hcase with ⟨-, hop', -⟩ | ⟨-, hdo, he⟩ | ⟨-, hop', -⟩
    · exact absurd (hop'.symm.trans hop) Bool.false_ne_true
    · exact ⟨o', ho', hdo, he⟩
    · exact absurd (hop'.symm.trans hop) Bool.false_ne_true
  · intro hun
    rw [Shared.object, hun] at ho'
    exact absurd ho' (by simp [Block.value])
  · intro o ho
    rw [hobj o ho]
    exact hbegun
  · intro o ho
    rw [hobj o ho]
    exact hstarted
  · intro o ho hdo
    rw [hobj o ho] at hdo
    rcases hcase with ⟨-, -, hdo', -⟩ | ⟨-, hdo', -⟩ | ⟨-, -, he⟩
    · exact absurd (hdo'.symm.trans hdo) Bool.false_ne_true
    · exact absurd (hdo'.symm.trans hdo) Bool.false_ne_true
    · exact he
  · exact fun he => ⟨o', ho', hentry he⟩

/-- **A step of the owner that frees the object**, which has no entry. -/
theorem inv_own_free {pc' : Pc} (hi : Inv c) (hown : (c.locals i).pc.owns = some h)
    (hnone : (h, h) ∉ c.shared.entries) (hnl' : ∀ pc, pc' ≠ .launch pc) (howns : pc'.owns = none)
    (hd : DictInv (c.move i (c.shared.setObject h .freed) ⟨(c.locals i).self, pc'⟩)) :
    Inv (c.move i (c.shared.setObject h .freed) ⟨(c.locals i).self, pc'⟩) := by
  have hh := hi.handle h
  obtain ⟨hop, o, ho, hdo, -⟩ := hh.owned i hown
  have hgone : ∀ {P : Object → Prop} (o'), (c.shared.setObject h .freed).object h = some o' →
      P o' := by
    intro P o' ho'
    rw [setObject_object] at ho'
    exact absurd ho' (by simp [Block.value])
  have hne : pc'.owns ≠ some h := by
    rw [howns]
    exact (Option.some_ne_none h).symm
  refine inv_one hi hd (fun k hk => Function.update_of_ne hk ..) (fun _ _ => rfl)
    (fun _ _ => Iff.rfl) (.inl rfl) ?_ (fun pc hpc => absurd hpc (hnl' pc)) ?_ ?_ hi.pairs ?_
  · intro k hk
    exact absurd (howns.symm.trans hk) (Option.some_ne_none k).symm
  · intro hpc
    rw [hpc] at hown
    exact absurd hown (Option.some_ne_none h).symm
  · refine hh.own (fun j hj hjo => hj (hh.owner j i hjo hown)) ?_ rfl hnl'
      (fun hl' => absurd hl' hne) ?_ ?_ hgone hgone hgone (fun he => absurd he hnone)
    · intro o' ho'
      obtain rfl := Option.some.inj (ho.symm.trans ho')
      exact hdo
    · intro hop'
      exact absurd (hop.symm.trans hop') Bool.false_ne_true
    · simp [Shared.setObject]
  · exact hi.distinct_set hnone

/-- **A step of the owner that changes the object.** -/
theorem inv_own_set {o o' : Object} {pc' : Pc} (hi : Inv c) (hown : (c.locals i).pc.owns = some h)
    (ho : c.shared.object h = some o)
    (hthread : o'.thread = o.thread ∨ (h, h) ∉ c.shared.entries)
    (hnl' : ∀ pc, pc' ≠ .launch pc) (howns : ∀ k, pc'.owns = some k → k = h)
    (hcase : pc'.owns = some h ∧ o'.detached = false ∧
        pc'.Fine o' ((h, h) ∈ c.shared.entries) ∨
      pc'.owns ≠ some h ∧ (h, h) ∈ c.shared.entries)
    (hbegun : o.pthread.begun = true → o'.pthread.begun = true)
    (hstarted : o'.pthread ≠ .none → o'.started = true)
    (hd : DictInv (c.move i (c.shared.setObject h (.live o')) ⟨(c.locals i).self, pc'⟩)) :
    Inv (c.move i (c.shared.setObject h (.live o')) ⟨(c.locals i).self, pc'⟩) := by
  have hh := hi.handle h
  obtain ⟨hclosed, o₁, ho₁, hdo, -⟩ := hh.owned i hown
  obtain rfl := Option.some.inj (ho.symm.trans ho₁)
  refine inv_own o' hi (fun j hj hjo => hj (hh.owner j i hjo hown)) ?_ ?_ hd
    (fun k hk => Function.update_of_ne hk ..) (fun _ _ => rfl) (fun _ _ => Iff.rfl) hi.pairs ?_
    rfl hnl' howns (setObject_object ..) ?_ ?_ hstarted ?_
  · intro o₂ ho₂
    obtain rfl := Option.some.inj (ho.symm.trans ho₂)
    exact hdo
  · intro pc hpc
    rw [hpc] at hown
    exact absurd hown (Option.some_ne_none h).symm
  · refine distinct_congr hi.distinct fun e he => ?_
    rcases eq_or_ne e.1 h with heh | heh
    · have hmem : (h, h) ∈ c.shared.entries := by
        rwa [show e = (h, h) from Prod.ext heh ((hi.pairs e he).symm.trans heh)] at he
      rw [heh, Shared.idOf, setObject_object, Shared.idOf, ho]
      exact congrArg some (hthread.resolve_right fun hn => hn hmem)
    · rw [Shared.idOf, setObject_object_of_ne _ heh, Shared.idOf]
  · rcases hcase with ⟨hp, hdo', hf⟩ | ⟨hp, he⟩
    · exact .inl ⟨hp, hclosed, hdo', hf⟩
    · exact .inr (.inr ⟨hp, hclosed, he⟩)
  · exact fun j hj => hbegun ((hh.running j hj).2 o ho)
  · intro he
    rw [hthread.resolve_right fun hn => hn he]
    exact hh.thread_ne he ho

end Law

end Lifetime

end Thread

end Libuzi
