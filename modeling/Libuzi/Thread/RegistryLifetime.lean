import Libuzi.Thread.RegistryOwners

/-!
# The lifetime of an entry

`winpr_StartThread` enters a thread in the registry; the entry is to stay in the dictionary
that `thread_list` points to until `cleanup_handle` on that thread removes it. As the code
stands it need not: of two threads that both find `thread_list` to be `NULL`, the second
replaces the dictionary in which the first has made its entry (`entry_lost`).

Where no step interferes, in the sense of `Undisturbed`, the entries are safe in every run of
any number of threads (`registry_respected`): at most one `cleanup_handle` comes to an object,
while its entry is still there, and removes this entry and no other. What has to be known for
this of the dictionaries and of every handle is the invariant `Inv`; here each step of the
library's functions is shown to keep it.
-/

namespace Libuzi

open Runs Threads

namespace Thread

namespace Lifetime

section Law

variable {ι : Type*} [DecidableEq ι] {c : Config ι (Shared ι) Local} {i : ι} {a : Act}
  {s' : Shared ι} {l' : Local} {h : ℕ}

/-! ### The steps of each function -/

/-- The places of `cleanup_handle` before the removal. -/
theorem cleanup_fine {back : CleanupPc → Pc} {after pc' : Pc} {pc : CleanupPc}
    (hf : pc.Fine ((h, h) ∈ c.shared.entries))
    (hop : ∀ d, pc.operand = some d →
      c.shared.threadList = some d ∧ ∃ D, c.shared.dicts d = .live D)
    (hfree : pc ≠ .free) (hremove : ∀ d, pc ≠ .remove d)
    (hs : cleanupStep i c.shared h back after pc = some (s', pc')) :
    s' = c.shared ∧ ∃ pc₁ : CleanupPc, pc' = back pc₁ ∧
      pc₁.Fine ((h, h) ∈ c.shared.entries) := by
  cases pc with
  | test =>
    obtain ⟨rfl, rfl⟩ := Prod.mk.inj (Option.some.inj hs)
    rw [if_neg (threadList_ne_none hf)]
    exact ⟨rfl, _, rfl, hf⟩
  | readContains | readRemove =>
    obtain ⟨rfl, rfl⟩ := Prod.mk.inj (Option.some.inj hs)
    exact ⟨rfl, _, rfl, hf, threadList_ne_none hf⟩
  | contains d =>
    obtain ⟨b, hb, hs⟩ := Option.map_eq_some_iff.mp hs
    obtain ⟨rfl, rfl⟩ := Prod.mk.inj hs
    obtain ⟨he, hd⟩ := hf
    obtain ⟨d, rfl⟩ := Option.ne_none_iff_exists'.mp hd
    obtain ⟨hlist, D, hD⟩ := hop d rfl
    obtain rfl := contains_of_entry hlist hD he hb
    exact ⟨rfl, _, rfl, he⟩
  | remove d => exact absurd rfl (hremove d)
  | free => exact absurd rfl hfree

/-- A step of `CreateThread` that changes nothing but its place. -/
theorem inv_create_pass {suspended : Bool} {pc pc₁ : CreatePc} (hi : Inv c)
    (hpc : (c.locals i).pc = .create h suspended pc) (hheap : s'.heap = c.shared.heap)
    (hopen : s'.isOpen = c.shared.isOpen) (hentries : s'.entries = c.shared.entries)
    (hf : ∀ o entered, pc.Fine o entered → pc₁.Fine o entered)
    (hd : DictInv (c.move i s' ⟨(c.locals i).self, .create h suspended pc₁⟩)) :
    Inv (c.move i s' ⟨(c.locals i).self, .create h suspended pc₁⟩) := by
  refine inv_pass hi hd (fun k => .inl (congrFun hheap k)) hopen hentries rfl ?_ ?_ ?_
  · intro k hk
    refine ⟨by rw [hpc]; exact hk, fun o' _ hfo => ?_⟩
    rw [hpc] at hfo
    exact hf o' _ hfo
  · rintro k pc₂ - ⟨⟩
  · rw [hpc]
    simp

/-- `CreateThread` enters its object in the dictionary that `thread_list` points to. -/
theorem inv_create_add {suspended : Bool} {d : ℕ} {D : Dict ι} (hi : Inv c)
    (hok : Undisturbed c (i, .go)) (hpc : (c.locals i).pc = .create h suspended (.add (some d)))
    (hD : c.shared.enter i d = some D)
    (hs : s' = c.shared.setDict d (.live { D with items := ListDictionary.add D.items h h }))
    (hd : DictInv (c.move i s' ⟨(c.locals i).self, .create h suspended .finish⟩)) :
    Inv (c.move i s' ⟨(c.locals i).self, .create h suspended .finish⟩) := by
  have hh := hi.handle h
  have hown : (c.locals i).pc.owns = some h := by rw [hpc]; rfl
  obtain ⟨hclosed, o, ho, hdo, hfine⟩ := hh.owned i hown
  rw [hpc] at hfine
  obtain ⟨hs₁, hne⟩ := hfine
  have hlist := ((hi.dict.each i).operand d (by rw [hpc]; rfl)).1
  obtain ⟨hzero, hnew⟩ := hok.2.1 h (by rw [hpc]; rfl) rfl
  have hentries : s'.entries = c.shared.entries ++ [(h, h)] := by
    rw [hs, entries_of_live hlist (enter_eq_some hD)]
    exact entries_of_live (s := c.shared.setDict d _) hlist (setDict_self ..)
  subst hs
  refine inv_own o hi (fun j hj hjo => hj (hh.owner j i hjo hown)) ?_ (by simp [hpc]) hd
    (fun _ _ => rfl) (fun _ _ => rfl) ?_ ?_ ?_ rfl (by simp)
    (fun k hk => (Option.some.inj hk).symm) ho ?_ ?_ ?_ ?_
  · intro o₁ ho₁
    obtain rfl := Option.some.inj (ho.symm.trans ho₁)
    exact hdo
  · intro k hk
    rw [hentries]
    simp [hk]
  · rw [hentries]
    intro e he
    rcases List.mem_append.mp he with he | he
    · exact hi.pairs e he
    · rw [List.mem_singleton.mp he]
  · rw [hentries]
    refine List.pairwise_append.mpr ⟨hi.distinct, List.pairwise_singleton .., ?_⟩
    intro e he e' he'
    rw [List.mem_singleton.mp he']
    exact hnew e he
  · refine .inl ⟨rfl, hclosed, hdo, fun _ => ?_, fun hs₀ => ?_⟩
    · rw [hentries]
      exact List.mem_append_right _ (List.mem_singleton_self _)
    · exact absurd (hs₀.symm.trans hs₁) Bool.false_ne_true
  · exact fun j hj => (hh.running j hj).2 o ho
  · exact hh.started o ho
  · intro _ hz
    exact hzero (by rw [Shared.idOf, ho]; exact congrArg some hz)

/-- `CreateThread` returns the handle, which is then open. -/
theorem inv_create_finish {suspended : Bool} (hi : Inv c)
    (hpc : (c.locals i).pc = .create h suspended .finish)
    (hs : s' = { c.shared with isOpen := Function.update c.shared.isOpen h true })
    (hd : DictInv (c.move i s' ⟨(c.locals i).self, .idle⟩)) :
    Inv (c.move i s' ⟨(c.locals i).self, .idle⟩) := by
  have hh := hi.handle h
  have hown : (c.locals i).pc.owns = some h := by rw [hpc]; rfl
  obtain ⟨-, o, ho, hdo, hfine⟩ := hh.owned i hown
  rw [hpc] at hfine
  subst hs
  refine inv_own o hi (fun j hj hjo => hj (hh.owner j i hjo hown)) ?_ (by simp [hpc]) hd
    (fun _ _ => rfl) (fun k hk => Function.update_of_ne hk ..) (fun _ _ => Iff.rfl) hi.pairs
    hi.distinct rfl (by simp) (fun k hk => absurd hk (Option.some_ne_none k).symm) ho
    (.inr (.inl ⟨(Option.some_ne_none h).symm, hdo, hfine⟩))
    (fun j hj => (hh.running j hj).2 o ho) (hh.started o ho) (fun he => hh.thread_ne he ho)
  intro o₁ ho₁
  obtain rfl := Option.some.inj (ho.symm.trans ho₁)
  exact hdo

/-- A step of `CreateThread` keeps the invariant. -/
theorem inv_create {suspended : Bool} {pc' : Pc} {pc : CreatePc} (hi : Inv c)
    (hok : Undisturbed c (i, a)) (hpc : (c.locals i).pc = .create h suspended pc)
    (hs : createStep i c.shared h suspended pc a = some (s', pc'))
    (hent : (c.locals i).pc.edits = false → s'.entries = c.shared.entries)
    (hd : DictInv (c.move i s' ⟨(c.locals i).self, pc'⟩)) :
    Inv (c.move i s' ⟨(c.locals i).self, pc'⟩) := by
  have hh := hi.handle h
  have hown : (c.locals i).pc.owns = some h := by rw [hpc]; rfl
  obtain ⟨-, o, ho, hdo, hfine⟩ := hh.owned i hown
  rw [hpc] at hfine
  revert hs
  fun_cases createStep i c.shared h suspended pc a with
  | case3 | case11 | case20 => exact fun hs => absurd hs (Option.some_ne_none _).symm
  | case1 =>
    rintro ⟨⟩
    refine inv_create_pass hi hpc rfl rfl (hent (by rw [hpc]; rfl)) (fun o entered hf => ?_) hd
    split_ifs <;> exact hf
  | case6 =>
    rintro ⟨⟩
    refine inv_create_pass hi hpc rfl rfl (hent (by rw [hpc]; rfl)) (fun o entered hf => ?_) hd
    split_ifs
    · exact hf.2.2.2
    · exact hf
  | case8 d =>
    intro hs
    obtain ⟨D, -, ⟨⟩⟩ := Option.map_eq_some_iff.mp hs
    exact inv_create_pass hi hpc rfl rfl (hent (by rw [hpc]; rfl)) (fun _ _ hf => hf) hd
  | case9 =>
    -- the thread is started, or left suspended with its event set
    intro hs
    obtain ⟨o₁, ho₁, hs⟩ := Option.map_eq_some_iff.mp hs
    obtain rfl := Option.some.inj (ho.symm.trans ho₁)
    obtain ⟨hs₀, hid, hnone, hne⟩ := hfine
    split_ifs at hs <;> cases hs
    · refine inv_own_set hi hown ho (.inl rfl) (by simp) (fun k hk => (Option.some.inj hk).symm)
        (.inl ⟨rfl, hdo, fun hs₁ => ?_, fun _ => hid⟩) id (hh.started o ho) hd
      exact absurd (hs₀.symm.trans hs₁) Bool.false_ne_true
    · exact inv_own_set hi hown ho (.inl rfl) (by simp) (fun k hk => (Option.some.inj hk).symm)
        (.inl ⟨rfl, hdo, rfl, hnone, hne⟩) id (fun _ => rfl) hd
  | case10 =>
    rintro ⟨⟩
    exact inv_create_pass hi hpc rfl rfl (hent (by rw [hpc]; rfl)) (fun _ _ hf => hf.2.2.2) hd
  | case12 tid =>
    -- `pthread_create` stores the `pthread_t`, before there is an entry
    intro hs
    obtain ⟨o₁, ho₁, ⟨⟩⟩ := Option.map_eq_some_iff.mp hs
    obtain rfl := Option.some.inj (ho.symm.trans ho₁)
    obtain ⟨hs₁, hnone, hne⟩ := hfine
    refine inv_own_set hi hown ho (.inr hne) (by simp) (fun k hk => (Option.some.inj hk).symm)
      (.inl ⟨rfl, hdo, hs₁, hne⟩) (fun hb => ?_) (fun _ => hs₁) hd
    rw [hnone] at hb
    exact absurd hb Bool.false_ne_true
  | case13 =>
    rintro ⟨⟩
    exact inv_create_pass hi hpc rfl rfl (hent (by rw [hpc]; rfl)) (fun _ _ hf => hf.2.2) hd
  | case15 =>
    rintro ⟨⟩
    exact inv_create_pass hi hpc rfl rfl (hent (by rw [hpc]; rfl)) (fun _ _ hf => hf.2) hd
  | case16 d =>
    intro hs
    obtain ⟨D, hD, ⟨⟩⟩ := Option.map_eq_some_iff.mp hs
    exact inv_create_add hi hok hpc hD rfl hd
  | case17 d =>
    intro hs
    obtain ⟨D, -, ⟨⟩⟩ := Option.map_eq_some_iff.mp hs
    exact inv_create_pass hi hpc rfl rfl rfl (fun _ _ hf => hf.2) hd
  | case18 =>
    rintro ⟨⟩
    exact inv_create_finish hi hpc rfl hd
  | case19 =>
    intro hs
    obtain ⟨o₁, -, ⟨⟩⟩ := Option.map_eq_some_iff.mp hs
    exact inv_own_free hi hown hfine (by simp) rfl hd
  | _ =>
    rintro ⟨⟩
    exact inv_create_pass hi hpc rfl rfl (hent (by rw [hpc]; rfl)) (fun _ _ hf => hf) hd

/-- The removal of an entry by the owner of its object. -/
theorem inv_close_remove {d : ℕ} (hi : Inv c)
    (hpc : (c.locals i).pc = .close h (.cleanup (.remove (some d))))
    (hs : c.shared.remove i h (some d) = some s')
    (hd : DictInv (c.move i s' ⟨(c.locals i).self, .close h (.cleanup .free)⟩)) :
    Inv (c.move i s' ⟨(c.locals i).self, .close h (.cleanup .free)⟩) := by
  have hh := hi.handle h
  have hown : (c.locals i).pc.owns = some h := by rw [hpc]; rfl
  obtain ⟨hclosed, o, ho, hdo, hfine⟩ := hh.owned i hown
  rw [hpc] at hfine
  obtain ⟨he, -⟩ := hfine
  obtain ⟨hheap, hopen, hmem, hdistinct⟩ := hi.remove_spec (by rw [hpc]; rfl) he hs
  have hnone : (h, h) ∉ s'.entries := fun hrem => ((hmem _).mp hrem).2 rfl
  refine inv_own o hi (fun j hj hjo => hj (hh.owner j i hjo hown)) ?_ (by simp [hpc]) hd
    (fun k _ => congrFun hheap k) (fun k _ => congrFun hopen k) ?_
    (fun e hrem => hi.pairs e ((hmem e).mp hrem).1) hdistinct rfl (by simp)
    (fun k hk => (Option.some.inj hk).symm) (by rw [Shared.object, hheap]; exact ho)
    (.inl ⟨rfl, (congrFun hopen h).trans hclosed, hdo, hnone⟩)
    (fun j hj => (hh.running j hj).2 o ho) (hh.started o ho) fun hrem => absurd hrem hnone
  · intro o₁ ho₁
    obtain rfl := Option.some.inj (ho.symm.trans ho₁)
    exact hdo
  · intro k hk
    rw [hmem]
    exact and_iff_left fun heq => hk (Prod.mk.inj heq).1

/-- A step of `cleanup_handle`, called by `ThreadCloseHandle`, keeps the invariant. -/
theorem inv_close_cleanup {pc' : Pc} {pc : CleanupPc} (hi : Inv c)
    (hpc : (c.locals i).pc = .close h (.cleanup pc))
    (hs : cleanupStep i c.shared h (fun pc => .close h (.cleanup pc)) (.close h .readUnlock) pc =
      some (s', pc'))
    (hd : DictInv (c.move i s' ⟨(c.locals i).self, pc'⟩)) :
    Inv (c.move i s' ⟨(c.locals i).self, pc'⟩) := by
  have hown : (c.locals i).pc.owns = some h := by rw [hpc]; rfl
  obtain ⟨-, o, ho, hdo, hfine⟩ := (hi.handle h).owned i hown
  rw [hpc] at hfine
  by_cases hfree : pc = .free
  · subst hfree
    obtain ⟨o₁, -, ⟨⟩⟩ := Option.map_eq_some_iff.mp hs
    exact inv_own_free hi hown hfine (by simp) rfl hd
  by_cases hremove : ∃ d, pc = .remove d
  · obtain ⟨d, rfl⟩ := hremove
    obtain ⟨d, rfl⟩ := Option.ne_none_iff_exists'.mp hfine.2
    obtain ⟨s₁, hs₁, ⟨⟩⟩ := Option.map_eq_some_iff.mp hs
    exact inv_close_remove hi hpc hs₁ hd
  · obtain ⟨rfl, pc₁, rfl, hf⟩ := cleanup_fine hfine
      (fun d hop => (hi.dict.each i).operand d (by rw [hpc]; exact hop)) hfree
      (fun d hdr => hremove ⟨d, hdr⟩) hs
    refine inv_pass hi hd (fun _ => .inl rfl) rfl rfl rfl ?_ ?_ (by simp [hpc])
    · intro k hk
      obtain rfl : h = k := Option.some.inj hk
      exact ⟨hown, fun _ _ _ => hf⟩
    · rintro k pc₂ - ⟨⟩

/-- A step of `ThreadCloseHandle` after which the object is as good as before. -/
theorem inv_close_pass {pc' : Pc} {pc : ClosePc} (hi : Inv c)
    (hpc : (c.locals i).pc = .close h pc) (hobj : ∀ k, SameObject c.shared s' k)
    (hopen : s'.isOpen = c.shared.isOpen) (hentries : s'.entries = c.shared.entries)
    (hnl : ∀ pc₁, pc' ≠ .launch pc₁)
    (hf : ∀ k, pc'.owns = some k → k = h ∧ pc.owns = true ∧ ∀ o, c.shared.object h = some o →
      pc.Fine o ((h, h) ∈ c.shared.entries) → pc'.Fine o ((h, h) ∈ c.shared.entries))
    (hd : DictInv (c.move i s' ⟨(c.locals i).self, pc'⟩)) :
    Inv (c.move i s' ⟨(c.locals i).self, pc'⟩) := by
  refine inv_pass hi hd hobj hopen hentries rfl ?_ (fun k pc₁ _ hpc₁ => absurd hpc₁ (hnl _))
    (by simp [hpc])
  intro k hk
  obtain ⟨rfl, hown, hfo⟩ := hf k hk
  rw [hpc]
  exact ⟨if_pos hown, hfo⟩

/-- A step to a place at which the object is no longer the caller's own. -/
theorem inv_close_leave {pc' : Pc} {pc : ClosePc} (hi : Inv c)
    (hpc : (c.locals i).pc = .close h pc) (hheap : s'.heap = c.shared.heap)
    (hopen : s'.isOpen = c.shared.isOpen) (hentries : s'.entries = c.shared.entries)
    (hnl : ∀ pc₁, pc' ≠ .launch pc₁) (hnone : pc'.owns = none)
    (hd : DictInv (c.move i s' ⟨(c.locals i).self, pc'⟩)) :
    Inv (c.move i s' ⟨(c.locals i).self, pc'⟩) := by
  refine inv_close_pass hi hpc (fun k => .inl (congrFun hheap k)) hopen hentries hnl
    (fun k hk => ?_) hd
  exact absurd (hnone.symm.trans hk) (Option.some_ne_none k).symm

/-- A step to another place of `ThreadCloseHandle`. -/
theorem inv_close_go {pc pc₁ : ClosePc} (hi : Inv c) (hpc : (c.locals i).pc = .close h pc)
    (hown : pc.owns = true) (hheap : s'.heap = c.shared.heap)
    (hopen : s'.isOpen = c.shared.isOpen) (hentries : s'.entries = c.shared.entries)
    (hf : ∀ o, c.shared.object h = some o → pc.Fine o ((h, h) ∈ c.shared.entries) →
      pc₁.Fine o ((h, h) ∈ c.shared.entries))
    (hd : DictInv (c.move i s' ⟨(c.locals i).self, .close h pc₁⟩)) :
    Inv (c.move i s' ⟨(c.locals i).self, .close h pc₁⟩) := by
  refine inv_close_pass hi hpc (fun k => .inl (congrFun hheap k)) hopen hentries (by simp)
    (fun k hk => ?_) hd
  rw [Pc.owns] at hk
  obtain ⟨-, hk⟩ := Option.ite_none_right_eq_some.mp hk
  exact ⟨(Option.some.inj hk).symm, hown, hf⟩

/-- A step of `ThreadCloseHandle` keeps the invariant. -/
theorem inv_close {pc' : Pc} {pc : ClosePc} (hi : Inv c)
    (hpc : (c.locals i).pc = .close h pc) (hs : closeStep i c.shared h pc a = some (s', pc'))
    (hent : (c.locals i).pc.edits = false → s'.entries = c.shared.entries)
    (hd : DictInv (c.move i s' ⟨(c.locals i).self, pc'⟩)) :
    Inv (c.move i s' ⟨(c.locals i).self, pc'⟩) := by
  revert hs
  fun_cases closeStep i c.shared h pc a with
  | case1 =>
    intro hs
    split_ifs at hs <;> cases hs
    · exact inv_close_leave hi hpc rfl rfl rfl (by simp) rfl hd
    · exact inv_close_go hi hpc rfl rfl rfl rfl (fun _ _ hf => hf) hd
  | case2 | case4 | case5 | case9 =>
    rintro ⟨⟩
    exact inv_close_go hi hpc rfl rfl rfl rfl (fun _ _ hf => hf) hd
  | case3 d =>
    intro hs
    obtain ⟨b, hb, hs⟩ := Option.map_eq_some_iff.mp hs
    split_ifs at hs with hbt <;> cases hs
    · rw [hbt] at hb
      cases d with
      | none => cases hb
      | some d =>
        obtain ⟨hlist, D, hD⟩ := (hi.dict.each i).operand d (by rw [hpc]; rfl)
        exact inv_close_go hi hpc rfl rfl rfl rfl
          (fun o ho hf => hi.entry_of_contains hlist hD ho hf hb) hd
    · exact inv_close_leave hi hpc rfl rfl rfl (by simp) rfl hd
  | case6 d =>
    intro hs
    obtain ⟨D, -, ⟨⟩⟩ := Option.map_eq_some_iff.mp hs
    exact inv_close_go hi hpc rfl rfl rfl (hent (by rw [hpc]; rfl)) (fun _ _ hf => hf) hd
  | case7 =>
    intro hs
    obtain ⟨o, -, ⟨⟩⟩ := Option.map_eq_some_iff.mp hs
    refine inv_close_go hi hpc rfl rfl rfl rfl (fun _ _ hf => ?_) hd
    split_ifs <;> exact hf
  | case8 =>
    intro hs
    obtain ⟨o, ho, hs⟩ := Option.bind_eq_some_iff.mp hs
    split_ifs at hs <;> cases hs
    · exact inv_close_go hi hpc rfl rfl rfl rfl (fun _ _ hf => hf) hd
    · refine inv_close_pass hi hpc (sameObject_set ho ⟨rfl, rfl, rfl, Iff.rfl, id⟩) rfl rfl
        (by simp) (fun k hk => ?_) hd
      exact ⟨(Option.some.inj hk).symm, rfl, fun _ _ hf => hf⟩
  | case10 =>
    -- `detached` is stored: from here on the object is its own thread's
    intro hs
    obtain ⟨o, ho, ⟨⟩⟩ := Option.map_eq_some_iff.mp hs
    have hown : (c.locals i).pc.owns = some h := by rw [hpc]; rfl
    obtain ⟨-, o₁, ho₁, -, hfine⟩ := (hi.handle h).owned i hown
    rw [hpc] at hfine
    exact inv_own_set hi hown ho (.inl rfl) (by simp)
      (fun k hk => absurd hk (Option.some_ne_none k).symm)
      (.inr ⟨(Option.some_ne_none h).symm, hfine⟩) id ((hi.handle h).started o ho) hd
  | case12 pc => exact fun hs => inv_close_cleanup hi hpc hs hd
  | case15 d =>
    intro hs
    obtain ⟨D, -, hs⟩ := Option.bind_eq_some_iff.mp hs
    obtain ⟨-, ⟨⟩⟩ := Option.ite_none_right_eq_some.mp hs
    exact inv_close_leave hi hpc rfl rfl (hent (by rw [hpc]; rfl)) (by simp) rfl hd
  | case18 d =>
    intro hs
    obtain ⟨D, -, hs⟩ := Option.map_eq_some_iff.mp hs
    split_ifs at hs <;> cases hs <;> exact inv_close_leave hi hpc rfl rfl rfl (by simp) rfl hd
  | case21 d =>
    intro hs
    obtain ⟨D, -, ⟨⟩⟩ := Option.map_eq_some_iff.mp hs
    exact inv_close_leave hi hpc rfl rfl (hent (by rw [hpc]; rfl)) (by simp) rfl hd
  | case23 => exact fun hs => absurd hs (Option.some_ne_none _).symm
  | _ =>
    rintro ⟨⟩
    exact inv_close_leave hi hpc rfl rfl (hent (by rw [hpc]; rfl)) (by simp) rfl hd

/-- A step of `cleanup_handle`, called by `thread_launcher`, keeps the invariant. -/
theorem inv_launch_cleanup {pc' : Pc} {pc : CleanupPc} (hi : Inv c)
    (hpc : (c.locals i).pc = .launch (.cleanup pc)) (hself : (c.locals i).self = some h)
    (hs : cleanupStep i c.shared h (fun pc => .launch (.cleanup pc)) (.launch .finish) pc =
      some (s', pc'))
    (hd : DictInv (c.move i s' ⟨(c.locals i).self, pc'⟩)) :
    Inv (c.move i s' ⟨(c.locals i).self, pc'⟩) := by
  have hh := hi.handle h
  obtain ⟨hdet, hfine⟩ := hh.cleaning i pc hself hpc
  by_cases hfree : pc = .free
  · subst hfree
    obtain ⟨o, -, ⟨⟩⟩ := Option.map_eq_some_iff.mp hs
    refine inv_one hi hd (fun k hk => Function.update_of_ne hk ..) (fun _ _ => rfl)
      (fun _ _ => Iff.rfl) (.inl rfl) (fun k hk => absurd hk (Option.some_ne_none k).symm)
      (fun _ _ => hself) (fun _ => hself) ?_ hi.pairs ?_
    · exact hh.release hself hpc hself rfl rfl hfine
        (.inr ⟨Function.update_self .., by simp⟩)
    · exact hi.distinct_set hfine
  by_cases hremove : ∃ d, pc = .remove d
  · obtain ⟨d, rfl⟩ := hremove
    obtain ⟨he, hne⟩ := hfine
    obtain ⟨d, rfl⟩ := Option.ne_none_iff_exists'.mp hne
    obtain ⟨s₁, hs₁, ⟨⟩⟩ := Option.map_eq_some_iff.mp hs
    obtain ⟨hheap, hopen, hmem, hdistinct⟩ := hi.remove_spec (by rw [hpc]; rfl) he hs₁
    have hnone : (h, h) ∉ s'.entries := fun hrem => ((hmem _).mp hrem).2 rfl
    refine inv_one hi hd (fun k _ => congrFun hheap k) (fun k _ => congrFun hopen k) ?_
      (.inl rfl) (fun k hk => absurd hk (Option.some_ne_none k).symm) (fun _ _ => hself)
      (fun _ => hself) ?_ (fun e hrem => hi.pairs e ((hmem e).mp hrem).1) hdistinct
    · intro k hk
      rw [hmem]
      exact and_iff_left fun heq => hk (Prod.mk.inj heq).1
    · exact hh.release hself hpc hself rfl (congrFun hopen h) hnone
        (.inl ⟨congrFun hheap h, rfl⟩)
  · obtain ⟨rfl, pc₁, rfl, hf⟩ := cleanup_fine hfine
      (fun d hop => (hi.dict.each i).operand d (by rw [hpc]; exact hop)) hfree
      (fun d hdr => hremove ⟨d, hdr⟩) hs
    refine inv_pass hi hd (fun _ => .inl rfl) rfl rfl rfl
      (fun k hk => absurd hk (Option.some_ne_none k).symm) ?_ ?_
    · intro k pc₂ hk hpc₂
      obtain rfl := Option.some.inj (hself.symm.trans hk)
      cases hpc₂
      exact ⟨hdet, hf⟩
    · rw [hpc]
      simpa using hfree

/-- A step of `thread_launcher` keeps the invariant. -/
theorem inv_launch {pc' : Pc} {pc : LaunchPc} (hi : Inv c)
    (hpc : (c.locals i).pc = .launch pc) (hself : (c.locals i).self = some h)
    (hs : launchStep i c.shared h pc = some (s', pc'))
    (hd : DictInv (c.move i s' ⟨(c.locals i).self, pc'⟩)) :
    Inv (c.move i s' ⟨(c.locals i).self, pc'⟩) := by
  have hh := hi.handle h
  have hpass : pc ≠ .cleanup .free → (∀ k, SameObject c.shared s' k) →
      s'.isOpen = c.shared.isOpen → s'.entries = c.shared.entries → pc'.owns = none →
      (∀ pc₁, pc' = .launch (.cleanup pc₁) →
        (∃ o, c.shared.object h = some o ∧ o.detached = true) ∧
          pc₁.Fine ((h, h) ∈ c.shared.entries)) →
      Inv (c.move i s' ⟨(c.locals i).self, pc'⟩) := by
    intro hne hobj hopen hentries hnone hclean
    refine inv_pass hi hd hobj hopen hentries rfl ?_ ?_ (by rw [hpc]; simpa using hne)
    · exact fun k hk => absurd (hnone.symm.trans hk) (Option.some_ne_none k).symm
    · intro k pc₁ hk hpc₁
      obtain rfl := Option.some.inj (hself.symm.trans hk)
      exact hclean pc₁ hpc₁
  cases pc with
  | readContains | wait | readAssert =>
    cases hs
    exact hpass (by simp) (fun _ => .inl rfl) rfl rfl rfl (by simp)
  | contains d =>
    obtain ⟨b, -, hs⟩ := Option.map_eq_some_iff.mp hs
    cases b <;> cases hs <;> exact hpass (by simp) (fun _ => .inl rfl) rfl rfl rfl (by simp)
  | assert d =>
    obtain ⟨b, -, hs⟩ := Option.bind_eq_some_iff.mp hs
    obtain ⟨-, ⟨⟩⟩ := Option.ite_none_right_eq_some.mp hs
    exact hpass (by simp) (fun _ => .inl rfl) rfl rfl rfl (by simp)
  | setEvent =>
    obtain ⟨o, ho, ⟨⟩⟩ := Option.map_eq_some_iff.mp hs
    exact hpass (by simp) (sameObject_set ho ⟨rfl, rfl, rfl, Iff.rfl, id⟩) rfl rfl rfl (by simp)
  | testDetached =>
    obtain ⟨o, ho, ⟨⟩⟩ := Option.map_eq_some_iff.mp hs
    refine hpass (by simp) (fun _ => .inl rfl) rfl rfl rfl fun pc₁ hpc₁ => ?_
    have hbegun := (hh.running i hself).2 o ho
    have hstarted : o.started = true := by
      refine hh.started o ho fun hnone => ?_
      rw [hnone] at hbegun
      exact absurd hbegun Bool.false_ne_true
    rw [hstarted, Bool.not_true, Bool.or_false] at hpc₁
    split_ifs at hpc₁ with hdet
    · obtain rfl : CleanupPc.test = pc₁ := by simpa using hpc₁
      refine ⟨⟨o, ho, hdet⟩, (hh.detached o ho hdet).resolve_right ?_⟩
      -- The thread that would have removed the entry is this one.
      rintro ⟨j, hj, hpcj⟩
      obtain rfl := hh.runner j i hj hself
      rw [hpc] at hpcj
      simp at hpcj
    · simp at hpc₁
  | cleanup pc => exact inv_launch_cleanup hi hpc hself hs hd
  | finish =>
    simp only [launchStep] at hs
    split at hs
    · cases hs
      exact hpass (by simp) (fun _ => .inl rfl) rfl rfl rfl (by simp)
    · next o ho =>
      cases hs
      have hbegun := (hh.running i hself).2 o ho
      refine hpass (by simp) (sameObject_set ho ⟨rfl, rfl, rfl, ?_, fun _ => rfl⟩) rfl rfl rfl
        (by simp)
      refine iff_of_false (by simp) fun hnone => ?_
      rw [hnone] at hbegun
      exact absurd hbegun Bool.false_ne_true

/-- The beginning of a call, or of a thread, keeps the invariant. -/
theorem inv_idle (hi : Inv c) (hpc : (c.locals i).pc = .idle)
    (hs : idleStep c.shared (c.locals i).self a = some (s', l'))
    (hd : DictInv (c.move i s' l')) : Inv (c.move i s' l') := by
  have hnl : ∀ pc, (c.locals i).pc ≠ .launch pc := by simp [hpc]
  revert hs
  fun_cases idleStep c.shared (c.locals i).self a with
  | case1 h suspended hun =>
    rintro ⟨⟩
    have hh := hi.handle h
    have hno : c.shared.object h = none := by rw [Shared.object, hun]; rfl
    have hne : (h, h) ∉ c.shared.entries := by
      intro he
      obtain ⟨o, ho, -⟩ := hh.entry he
      exact absurd (hno.symm.trans ho) (Option.some_ne_none o).symm
    have hclosed : c.shared.isOpen h = false := by
      rcases Bool.eq_false_or_eq_true (c.shared.isOpen h) with hop | hop
      · obtain ⟨o, ho, -⟩ := hh.opened hop
        exact absurd (hno.symm.trans ho) (Option.some_ne_none o).symm
      · exact hop
    refine inv_own Object.zero hi ?_ ?_ hnl hd (fun k hk => Function.update_of_ne hk ..)
      (fun _ _ => rfl) (fun _ _ => Iff.rfl) hi.pairs ?_ rfl (by simp)
      (fun k hk => (Option.some.inj hk).symm) (setObject_object ..)
      (.inl ⟨rfl, hclosed, rfl, rfl, rfl, rfl, hne⟩) ?_ (fun hp => absurd rfl hp)
      fun he => absurd he hne
    · intro j _ hj
      obtain ⟨-, o, ho, -⟩ := hh.owned j hj
      exact absurd (hno.symm.trans ho) (Option.some_ne_none o).symm
    · intro o ho
      exact absurd (hno.symm.trans ho) (Option.some_ne_none o).symm
    · exact hi.distinct_set hne
    · exact fun j hj => absurd hun (hh.running j hj).1
  | case3 h hopen =>
    rintro ⟨⟩
    have hh := hi.handle h
    obtain ⟨o, ho, hdo, hentered⟩ := hh.opened hopen
    refine inv_own o hi ?_ ?_ hnl hd (fun _ _ => rfl)
      (fun k hk => Function.update_of_ne hk ..) (fun _ _ => Iff.rfl) hi.pairs hi.distinct rfl
      (by simp) (fun k hk => (Option.some.inj hk).symm) ho
      (.inl ⟨rfl, Function.update_self .., hdo, hentered⟩)
      (fun j hj => (hh.running j hj).2 o ho) (hh.started o ho) ?_
    · intro j _ hj
      exact absurd ((hh.owned j hj).1.symm.trans hopen) Bool.false_ne_true
    · intro o₁ ho₁
      obtain rfl := Option.some.inj (ho.symm.trans ho₁)
      exact hdo
    · exact fun he => hh.thread_ne he ho
  | case5 h =>
    intro hs
    obtain ⟨o, ho, hs⟩ := Option.bind_eq_some_iff.mp hs
    obtain ⟨⟨-, hcreated⟩, ⟨⟩⟩ := Option.ite_none_right_eq_some.mp hs
    have hh := hi.handle h
    have hlike : o.Like { o with pthread := .running } :=
      ⟨rfl, rfl, rfl, iff_of_false (by simp) (by simp [hcreated]), fun _ => rfl⟩
    refine inv_one hi hd (fun k hk => Function.update_of_ne hk ..) (fun _ _ => rfl)
      (fun _ _ => Iff.rfl) (.inr rfl) (fun k hk => absurd hk (Option.some_ne_none k).symm)
      (fun _ _ => rfl) (fun hp => absurd hp (hnl _)) ?_ hi.pairs ?_
    · refine hh.pass (sameObject_set ho hlike h) rfl Iff.rfl (fun _ => .inr ⟨fun j hj => ?_, ?_⟩)
        (fun hk => absurd hk (Option.some_ne_none h).symm) (by simp) fun _ => hnl _
      · have hbegun := (hh.running j hj).2 o ho
        rw [hcreated] at hbegun
        exact absurd hbegun Bool.false_ne_true
      · exact ⟨_, Function.update_self .., rfl⟩
    · exact distinct_congr hi.distinct fun e _ => (sameObject_set ho hlike e.1).idOf
  | case6 =>
    intro hs
    obtain ⟨h, hself, ⟨⟩⟩ := Option.map_eq_some_iff.mp hs
    exact inv_pass hi hd (fun _ => .inl rfl) rfl rfl hself.symm
      (fun k hk => absurd hk (Option.some_ne_none k).symm) (by simp) (hnl _)
  | _ => exact fun hs => absurd hs (Option.some_ne_none _).symm

/-- **A step that meets the condition keeps the invariant.** -/
theorem inv_step (hi : Inv c) (hok : Undisturbed c (i, a))
    (hs : next i a c.shared (c.locals i) = some (s', l')) : Inv (c.move i s' l') := by
  have hd := dictInv_step hi.dict hok hs
  have hent := entries_step hi.dict hok hs
  unfold next at hs
  split at hs
  · next hpc => exact inv_idle hi hpc hs hd
  · next h suspended pc hpc =>
    obtain ⟨r, hr, ⟨⟩⟩ := Option.map_eq_some_iff.mp hs
    exact inv_create hi hok hpc hr hent hd
  · next h pc hpc =>
    obtain ⟨r, hr, ⟨⟩⟩ := Option.map_eq_some_iff.mp hs
    exact inv_close hi hpc hr hent hd
  · next pc hpc =>
    obtain ⟨h, hself, hs⟩ := Option.bind_eq_some_iff.mp hs
    obtain ⟨-, hs⟩ := Option.ite_none_right_eq_some.mp hs
    obtain ⟨r, hr, ⟨⟩⟩ := Option.map_eq_some_iff.mp hs
    exact inv_launch hi hpc hself hr hd
  · cases hs

omit [DecidableEq ι] in
theorem inv_start : Inv (start : Config ι (Shared ι) Local) := by
  refine ⟨dictInv_start, fun h => ?_, fun e he => absurd he List.not_mem_nil, .nil⟩
  constructor
  · exact fun j hj => absurd hj (Option.some_ne_none h).symm
  · exact fun j k hj => absurd hj (Option.some_ne_none h).symm
  · exact fun hop => absurd hop Bool.false_ne_true
  · exact fun j hj => absurd hj (Option.some_ne_none h).symm
  · exact fun j k hj => absurd hj (Option.some_ne_none h).symm
  · exact fun j pc hj => absurd hj (Option.some_ne_none h).symm
  · exact fun o ho => absurd ho (Option.some_ne_none o).symm
  · exact fun o ho => absurd ho (Option.some_ne_none o).symm
  · exact fun he => absurd he List.not_mem_nil

/-! ### The lifetime -/

/-- The handle whose entry the next step of `cleanup_handle` removes. -/
def Local.removes (l : Local) : Option ℕ :=
  match l.pc with
  | .close h (.cleanup (.remove _)) => some h
  | .launch (.cleanup (.remove _)) => l.self
  | _ => none

/-- An entry stays where it is in every step but the removal by its own `cleanup_handle`. -/
theorem Inv.entry_step (hi : Inv c) (hok : Undisturbed c (i, a))
    (hs : next i a c.shared (c.locals i) = some (s', l')) (he : (h, h) ∈ c.shared.entries)
    (hrem : (c.locals i).removes ≠ some h) : (h, h) ∈ s'.entries := by
  rcases Bool.eq_false_or_eq_true (c.locals i).pc.edits with hedits | hedits
  swap
  · rwa [entries_step hi.dict hok hs hedits]
  cases dictStep_of_next hs with
  | keep hlist hdicts => rwa [entries_congr hlist hdicts]
  | touch d D D' hoperand hD hs' hitems =>
    subst hs'
    have hlist := ((hi.dict.each i).operand d hoperand).1
    rw [entries_of_live (s := c.shared.setDict d _) hlist (setDict_self ..)]
    rcases hitems with heq | ⟨h₁, suspended, hpc, -, heq⟩ | ⟨h₁, o, ho, hpc, heq⟩
    · rwa [heq, ← entries_of_live hlist hD]
    · rw [heq, ← entries_of_live hlist hD]
      exact List.mem_append_left _ he
    · have hne : h₁ ≠ h := by
        rintro rfl
        rcases hpc with ⟨hpc, -⟩ | ⟨hself, hpc, -⟩
        · exact hrem (by rw [Local.removes, hpc])
        · exact hrem (by rw [Local.removes, hpc]; exact hself)
      have hmem : (h₁, h₁) ∈ c.shared.entries := by
        rcases hpc with ⟨hpc, -⟩ | ⟨hself, hpc, -⟩
        · obtain ⟨-, o₁, -, -, hfine⟩ := (hi.handle h₁).owned i (by rw [hpc]; rfl)
          rw [hpc] at hfine
          exact hfine.1
        · exact ((hi.handle h₁).cleaning i _ hself hpc).2.1
      rw [heq, hi.mem_remove_iff hlist hD ho hmem]
      exact ⟨he, fun heq => hne (Prod.mk.inj heq).1.symm⟩
  | new d h₁ suspended hpc => simp [hpc, Pc.edits] at hedits
  | store d h₁ suspended hpc => simp [hpc, Pc.edits] at hedits
  | free d D h₁ hpc => simp [hpc, Pc.edits] at hedits
  | null d h₁ hpc => simp [hpc, Pc.edits] at hedits

/-- **What is asked of the registry** in a state, when the steps to come meet `ok`. -/
structure Respected (ok : Config ι (Shared ι) Local → ι × Act → Prop)
    (c : Config ι (Shared ι) Local) : Prop where
  /-- Nobody is about to apply an operation to a dictionary that has been freed. -/
  inUse : ∀ j d, (c.locals j).pc.operand = some d → c.shared.dicts d ≠ .freed
  /-- What `winpr_StartThread` enters is in the dictionary that `thread_list` points to. -/
  added : ∀ j h suspended d c', (c.locals j).pc = .create h suspended (.add (some d)) →
    ok c (j, .go) → threadStep next c (j, .go) = some c' → (h, h) ∈ c'.shared.entries
  /-- And it stays there until the thread's own `cleanup_handle` removes it. -/
  kept : ∀ h c', (h, h) ∈ c.shared.entries →
    ReachesIf (threadStep next) (fun c e => ok c e ∧ (c.locals e.1).removes ≠ some h) c c' →
    (h, h) ∈ c'.shared.entries

theorem inv_of_reaches {c₀ : Config ι (Shared ι) Local} (hi : Inv c₀)
    (hc : ReachesIf (threadStep next) Undisturbed c₀ c) : Inv c :=
  Threads.invariant (P := Inv) hc hi fun _ _ _ _ _ hd hok hs => inv_step hd hok hs

/-- **The registry outlives its entries when nobody interferes**: in every run of any number of
threads whose steps all meet `Undisturbed`, every operation is applied to a dictionary that has
not been freed, and every entry is, from the step that adds it to the step of the thread's own
`cleanup_handle` that removes it, in the dictionary that `thread_list` points to. -/
theorem registry_respected (c : Config ι (Shared ι) Local)
    (hc : ReachesIf (threadStep next) Undisturbed start c) : Respected Undisturbed c := by
  have hi := inv_of_reaches inv_start hc
  refine ⟨?_, ?_, ?_⟩
  · intro j d hop
    obtain ⟨-, D, hD⟩ := (hi.dict.each j).operand d hop
    rw [hD]
    simp
  · intro j h suspended d c' hpc hok hs
    obtain ⟨s', l', hn, rfl⟩ := threadStep_eq_some.mp hs
    have hlist := ((hi.dict.each j).operand d (by rw [hpc]; rfl)).1
    simp only [next, hpc, createStep] at hn
    obtain ⟨r, hr, ⟨⟩⟩ := Option.map_eq_some_iff.mp hn
    obtain ⟨D, hD, rfl⟩ := Option.map_eq_some_iff.mp hr
    rw [Config.move_shared, entries_of_live (s := c.shared.setDict d _) hlist (setDict_self ..)]
    exact List.mem_append_right _ (List.mem_singleton_self _)
  · intro h c' he hc'
    have hboth : Inv c' ∧ (h, h) ∈ c'.shared.entries := by
      refine Threads.invariant (P := fun c => Inv c ∧ (h, h) ∈ c.shared.entries) hc' ⟨hi, he⟩ ?_
      rintro d i a s' l' ⟨hd, hed⟩ ⟨hok, hrem⟩ hs
      exact ⟨inv_step hd hok hs, hd.entry_step hok hs hed hrem⟩
    exact hboth.2

end Law

/-! ### One run that meets the condition, and one that does not -/

/-- A thread is created, runs, and ends; then its handle is closed, and the registry freed. -/
def createThenClose : List (Fin 2 × Act) :=
  [(0, .create 0 false), (0, .go), (0, .new 0), (0, .go), (0, .go), (0, .go), (0, .go), (0, .go),
    (0, .pthread 7), (0, .go), (0, .go), (0, .go), (1, .launch 0), (1, .go), (1, .go), (1, .go),
    (1, .go), (1, .ret), (1, .go), (1, .go), (1, .go), (0, .close 0)] ++
    List.replicate 20 (0, .go)

/-- The registry has served a thread, and is gone. -/
theorem registry_respected_createThenClose :
    (final (threadStep next) start createThenClose).shared.dicts 0 = .freed ∧
      Respected Undisturbed (final (threadStep next) start createThenClose) :=
  ⟨by decide +kernel, registry_respected _
    (reachesIf_of_run createThenClose (by decide +kernel) (run_eq_final (by decide +kernel)))⟩

/-- Two threads call `CreateThread` and both find `thread_list` to be `NULL`; the first stores
its dictionary and enters its thread. -/
def firstEntered : List (Fin 2 × Act) :=
  [(0, .create 0 false), (0, .go), (1, .create 1 false), (1, .go), (0, .new 0), (0, .go), (0, .go),
    (0, .go), (0, .go), (0, .go), (0, .pthread 7), (0, .go), (0, .go)]

/-- Then the second stores its own. -/
def secondStored : List (Fin 2 × Act) := [(1, .new 1), (1, .go)]

/-- **An entry can get lost**: the entry of the first thread is in the dictionary that the second
has replaced. -/
theorem entry_lost :
    ¬ ∀ c : Config (Fin 2) (Shared (Fin 2)) Local, Reaches (threadStep next) start c →
      Respected (fun _ _ => True) c := by
  intro hall
  have hr := hall _ (reaches_of_run firstEntered (run_eq_final (by decide +kernel)))
  have hkept := hr.kept 0 _ (by decide +kernel)
    (reachesIf_of_run secondStored (by decide +kernel) (run_eq_final (by decide +kernel)))
  exact absurd hkept (by decide +kernel)

end Lifetime

end Thread

end Libuzi
