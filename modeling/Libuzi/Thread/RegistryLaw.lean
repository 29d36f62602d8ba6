import Libuzi.Thread.Registry

/-!
# Threads find their own handles

What makes the registry work is that no two of its entries have the same `pthread_t`: then
a thread's `pthread_t` leads to its own object, and `cleanup_handle`, which removes by
`pthread_t`, removes the entry of the object that it frees. The invariant `Inv` says this,
together with what ties the three parts of the state to each other: the objects, the
entries, and the threads that the pthread library remembers.

It is kept by every call, provided that a new thread's `pthread_t` is not the key of an
entry that is still there (`IdUnused`). The pthread library does not promise that much: an
entry outlives the join of its thread, for as long as the handle is not closed. A new
thread that is given the same `pthread_t` in the meantime finds the older object
(`resolves_not_always`), and closing its handle removes the older entry and leaves its own
behind, pointing to freed memory (`dangling_entry`).
-/

namespace Libuzi

open Runs

namespace Thread

open Handle

variable {s s' : State} {h tid : ℕ} {t t' : WinprThread} {p q : PThread}

/-! ### Looking at the dictionary -/

/-- The dictionary contains a `pthread_t` if a key points to it. -/
theorem contains_iff : s.contains tid = true ↔ ∃ e ∈ s.entries, s.idOf e.1 = some tid := by
  rw [State.contains, State.entries]
  cases s.threadList with
  | none => simp
  | some d => simp [ListDictionary.contains, State.threadCompare]

/-- `_GetCurrentThread` is a lookup. -/
theorem getCurrentThread_eq (s : State) (tid : ℕ) :
    getCurrentThread s tid = ListDictionary.getItemValue (s.threadCompare tid) s.entries := by
  rw [getCurrentThread, State.entries]
  cases s.threadList with
  | none => rfl
  | some d =>
    simp only [Option.getD_some]
    split_ifs with hc
    · have hnone : d.find? (fun item => s.threadCompare tid item.1) = none := by
        rw [List.find?_eq_none]
        simpa [ListDictionary.contains] using hc
      rw [ListDictionary.getItemValue, hnone]
      rfl
    · rfl

/-- What `cleanup_handle` leaves. -/
theorem cleanupHandle_eq (ht : s.heap h = some t) :
    (cleanupHandle s h).heap = Function.update s.heap h none ∧
      (cleanupHandle s h).entries =
        ListDictionary.remove (s.threadCompare t.thread) s.entries ∧
      (cleanupHandle s h).pthreads = s.pthreads ∧ (cleanupHandle s h).isOpen = s.isOpen := by
  simp only [cleanupHandle, ht, State.entries]
  refine ⟨trivial, ?_, trivial, trivial⟩
  cases s.threadList with
  | none => rfl
  | some d =>
    simp only [Option.map_some, Option.getD_some]
    split_ifs with hc
    · rfl
    · refine (List.eraseP_of_forall_not fun item hitem hcmp => hc ?_).symm
      exact List.any_eq_true.mpr ⟨item, hitem, hcmp⟩

/-- Freeing an empty list changes no entry. -/
theorem freeIfEmpty_eq (s : State) :
    (freeIfEmpty s).heap = s.heap ∧ (freeIfEmpty s).entries = s.entries ∧
      (freeIfEmpty s).pthreads = s.pthreads ∧ (freeIfEmpty s).isOpen = s.isOpen := by
  rw [freeIfEmpty]
  split
  · exact ⟨rfl, rfl, rfl, rfl⟩
  · next d hd =>
    split_ifs with hcount
    · refine ⟨rfl, ?_, rfl, rfl⟩
      have hnil : d = [] := List.length_eq_zero_iff.mp (Nat.lt_one_iff.mp hcount)
      simp only [State.entries, hd, hnil, Option.getD_some, Option.getD_none]
    · exact ⟨rfl, rfl, rfl, rfl⟩

/-! ### The invariant -/

/-- What holds of an object at `h`. -/
structure ObjectOk (s : State) (h : ℕ) (t : WinprThread) : Prop where
  unstarted : t.started = false → t.thread = 0 ∧ t.joined = false
  started : t.started = true → t.thread ≠ 0 ∧ (h, h) ∈ s.entries
  joined : t.joined = true → t.signalled = true
  alive : t.started = true → t.joined = false →
    s.pthreads t.thread = some ⟨h, t.signalled, t.detached⟩

/-- **The invariant.** -/
structure Inv (s : State) : Prop where
  objects : ∀ h t, s.heap h = some t → ObjectOk s h t
  entries : ∀ e ∈ s.entries, e.1 = e.2 ∧ ∃ t, s.heap e.1 = some t ∧ t.started = true
  distinct : ListDictionary.Distinct s.idOf s.entries
  pthreads : ∀ tid p, s.pthreads tid = some p →
    ∃ t, s.heap p.handle = some t ∧ t.thread = tid ∧ t.started = true ∧ t.joined = false
  opened : ∀ h, s.isOpen h = true → ∃ t, s.heap h = some t ∧ t.detached = false

/-- The invariant is about the entries, not about the list that holds them. -/
theorem Inv.congr (hi : Inv s) (hheap : s'.heap = s.heap) (hentries : s'.entries = s.entries)
    (hpthreads : s'.pthreads = s.pthreads) (hopen : s'.isOpen = s.isOpen) : Inv s' := by
  have hid : s'.idOf = s.idOf := by
    funext key
    rw [State.idOf, State.idOf, hheap]
  refine ⟨?_, ?_, ?_, ?_, ?_⟩
  · intro h t ht
    rw [hheap] at ht
    obtain ⟨h₁, h₂, h₃, h₄⟩ := hi.objects h t ht
    exact ⟨h₁, by rwa [hentries], h₃, by rwa [hpthreads]⟩
  · rw [hentries, hheap]
    exact hi.entries
  · rw [hentries, hid]
    exact hi.distinct
  · rw [hpthreads, hheap]
    exact hi.pthreads
  · rw [hopen, hheap]
    exact hi.opened

/-! ### What a thread finds -/

theorem idOf_eq (ht : s.heap h = some t) : s.idOf h = some t.thread := by
  rw [State.idOf, ht]
  rfl

theorem threadCompare_eq (ht : s.heap h = some t) :
    s.threadCompare t.thread = fun key => decide (s.idOf key = s.idOf (h, h).1) := by
  funext key
  rw [State.threadCompare, idOf_eq ht]

/-- **An object's `pthread_t` leads to the object.** -/
theorem Inv.getCurrentThread_eq_some (hi : Inv s) (ht : s.heap h = some t)
    (hs : t.started = true) : getCurrentThread s t.thread = some h := by
  rw [getCurrentThread_eq, threadCompare_eq ht]
  exact ListDictionary.getItemValue_of_mem hi.distinct ((hi.objects h t ht).started hs).2

theorem Inv.contains_eq_true (hi : Inv s) (ht : s.heap h = some t) (hs : t.started = true) :
    s.contains t.thread = true :=
  contains_iff.mpr ⟨(h, h), ((hi.objects h t ht).started hs).2, idOf_eq ht⟩

/-- **`cleanup_handle` removes the entry of the object that it frees**, and no other. -/
theorem Inv.mem_cleanupHandle_iff (hi : Inv s) (ht : s.heap h = some t) (hs : t.started = true)
    {e : ℕ × ℕ} : e ∈ (cleanupHandle s h).entries ↔ e ∈ s.entries ∧ e ≠ (h, h) := by
  rw [(cleanupHandle_eq ht).2.1, threadCompare_eq ht]
  exact ListDictionary.mem_remove_iff hi.distinct ((hi.objects h t ht).started hs).2

/-- Two started objects with the same `pthread_t` are one. -/
theorem Inv.eq_of_thread_eq (hi : Inv s) {h' : ℕ} (ht : s.heap h = some t) (hs : t.started = true)
    (ht' : s.heap h' = some t') (hs' : t'.started = true) (heq : t'.thread = t.thread) :
    h' = h := by
  have hfirst := hi.getCurrentThread_eq_some ht hs
  rw [← heq, hi.getCurrentThread_eq_some ht' hs'] at hfirst
  exact Option.some.inj hfirst

/-- A joined thread has been forgotten. -/
theorem Inv.pthreads_of_joined (hi : Inv s) (ht : s.heap h = some t) (hs : t.started = true)
    (hj : t.joined = true) : s.pthreads t.thread = none := by
  cases hp : s.pthreads t.thread with
  | none => rfl
  | some p =>
    obtain ⟨t', ht', hthread, hs', hj'⟩ := hi.pthreads _ p hp
    have heq := hi.eq_of_thread_eq ht hs ht' hs' hthread
    rw [heq, ht] at ht'
    rw [← Option.some.inj ht', hj] at hj'
    cases hj'

/-- No thread has the `pthread_t` 0. -/
theorem Inv.pthreads_zero (hi : Inv s) : s.pthreads 0 = none := by
  cases hp : s.pthreads 0 with
  | none => rfl
  | some p =>
    obtain ⟨t, ht, hthread, hs, -⟩ := hi.pthreads _ p hp
    exact absurd hthread ((hi.objects _ t ht).started hs).1

/-! ### The three kinds of change -/

/-- Other started objects have another `pthread_t`. -/
theorem Inv.thread_ne (hi : Inv s) {h' : ℕ} (ht : s.heap h = some t) (hs : t.started = true)
    (ht' : s.heap h' = some t') (hs' : t'.started = true) (hne : h' ≠ h) :
    t'.thread ≠ t.thread := by
  intro heq
  exact hne (hi.eq_of_thread_eq ht hs ht' hs' heq)

/-- The objects of other threads are elsewhere. -/
theorem Inv.handle_ne (hi : Inv s) (ht : s.heap h = some t) (hp : s.pthreads tid = some p)
    (hne : tid ≠ t.thread) : p.handle ≠ h := by
  rintro rfl
  obtain ⟨t₁, ht₁, hthread₁, -⟩ := hi.pthreads tid p hp
  rw [ht] at ht₁
  rw [← Option.some.inj ht₁] at hthread₁
  exact hne hthread₁.symm

/-- **The fields of a started object change**, and with them what the pthread library knows of
its thread: nothing, if it has been joined. -/
theorem Inv.update (hi : Inv s) (t' : WinprThread) (ht : s.heap h = some t)
    (hs : t.started = true)
    (hs' : t'.started = true) (hthread : t'.thread = t.thread) {q : Option PThread}
    (hjoined : t'.joined = true → t'.signalled = true ∧ q = none)
    (halive : t'.joined = false → q = some ⟨h, t'.signalled, t'.detached⟩)
    (hheap : s'.heap = Function.update s.heap h (some t')) (hentries : s'.entries = s.entries)
    (hpthreads : s'.pthreads = Function.update s.pthreads t.thread q)
    (hopen : ∀ h', s'.isOpen h' = true → s.isOpen h' = true ∧ (h' = h → t'.detached = false)) :
    Inv s' := by
  have hself : s'.heap h = some t' := by rw [hheap, Function.update_self]
  have hother : ∀ h', h' ≠ h → s'.heap h' = s.heap h' := fun h' hne => by
    rw [hheap, Function.update_of_ne hne]
  have hid : s'.idOf = s.idOf := by
    funext key
    rcases eq_or_ne key h with rfl | hne
    · rw [idOf_eq hself, idOf_eq ht, hthread]
    · rw [State.idOf, State.idOf, hother key hne]
  refine ⟨?_, ?_, ?_, ?_, ?_⟩
  · intro h' t₁ ht₁
    rcases eq_or_ne h' h with rfl | hne
    · rw [hself] at ht₁
      obtain rfl := Option.some.inj ht₁
      refine ⟨fun hf => ?_, fun _ => ?_, fun hj => (hjoined hj).1, fun _ hj => ?_⟩
      · rw [hs'] at hf
        cases hf
      · rw [hthread, hentries]
        exact (hi.objects _ t ht).started hs
      · rw [hthread, hpthreads, Function.update_self]
        exact halive hj
    · rw [hother h' hne] at ht₁
      obtain ⟨h₁, h₂, h₃, h₄⟩ := hi.objects h' t₁ ht₁
      refine ⟨h₁, by rwa [hentries], h₃, fun hs₁ hj₁ => ?_⟩
      rw [hpthreads, Function.update_of_ne (hi.thread_ne ht hs ht₁ hs₁ hne)]
      exact h₄ hs₁ hj₁
  · intro e he
    rw [hentries] at he
    obtain ⟨heq, t₁, ht₁, hs₁⟩ := hi.entries e he
    refine ⟨heq, ?_⟩
    rcases eq_or_ne e.1 h with heh | hne
    · exact ⟨t', by rw [heh, hself], hs'⟩
    · exact ⟨t₁, by rw [hother e.1 hne, ht₁], hs₁⟩
  · rw [hentries, hid]
    exact hi.distinct
  · intro tid p hp
    rw [hpthreads] at hp
    rcases eq_or_ne tid t.thread with rfl | hne
    · rw [Function.update_self] at hp
      cases hj : t'.joined with
      | true =>
        rw [(hjoined hj).2] at hp
        cases hp
      | false =>
        rw [halive hj] at hp
        obtain rfl := Option.some.inj hp
        exact ⟨t', hself, hthread, hs', hj⟩
    · rw [Function.update_of_ne hne] at hp
      rw [hother _ (hi.handle_ne ht hp hne)]
      exact hi.pthreads tid p hp
  · intro h' ho
    obtain ⟨ho', hdet⟩ := hopen h' ho
    rcases eq_or_ne h' h with rfl | hne
    · exact ⟨t', hself, hdet rfl⟩
    · rw [hother h' hne]
      exact hi.opened h' ho'

/-- **A started object is freed**, its entry removed and its thread forgotten. -/
theorem Inv.remove (hi : Inv s) (ht : s.heap h = some t) (hs : t.started = true)
    (hheap : s'.heap = Function.update s.heap h none)
    (hentries : s'.entries = ListDictionary.remove (s.threadCompare t.thread) s.entries)
    (hpthreads : s'.pthreads = Function.update s.pthreads t.thread none)
    (hopen : ∀ h', s'.isOpen h' = true → s.isOpen h' = true ∧ h' ≠ h) : Inv s' := by
  have hother : ∀ h', h' ≠ h → s'.heap h' = s.heap h' := fun h' hne => by
    rw [hheap, Function.update_of_ne hne]
  have hne_of_some : ∀ {h'} {t₁ : WinprThread}, s'.heap h' = some t₁ → h' ≠ h := by
    rintro h' t₁ ht₁ rfl
    rw [hheap, Function.update_self] at ht₁
    cases ht₁
  have hmem : ∀ {e}, e ∈ s'.entries ↔ e ∈ s.entries ∧ e ≠ (h, h) := by
    intro e
    rw [hentries, threadCompare_eq ht]
    exact ListDictionary.mem_remove_iff hi.distinct ((hi.objects h t ht).started hs).2
  have hkey : ∀ e ∈ s'.entries, e.1 ≠ h := by
    rintro ⟨key, value⟩ he rfl
    obtain ⟨he', hne⟩ := hmem.mp he
    obtain rfl : key = value := (hi.entries _ he').1
    exact hne rfl
  refine ⟨?_, ?_, ?_, ?_, ?_⟩
  · intro h' t₁ ht₁
    have hne := hne_of_some ht₁
    rw [hother h' hne] at ht₁
    obtain ⟨h₁, h₂, h₃, h₄⟩ := hi.objects h' t₁ ht₁
    refine ⟨h₁, fun hs₁ => ⟨(h₂ hs₁).1, hmem.mpr ⟨(h₂ hs₁).2, ?_⟩⟩, h₃, fun hs₁ hj₁ => ?_⟩
    · rintro heq
      exact hne (congrArg Prod.fst heq)
    · rw [hpthreads, Function.update_of_ne (hi.thread_ne ht hs ht₁ hs₁ hne)]
      exact h₄ hs₁ hj₁
  · intro e he
    rw [hother _ (hkey e he)]
    exact hi.entries e (hmem.mp he).1
  · have hdist : ListDictionary.Distinct s.idOf s'.entries := by
      rw [hentries]
      exact hi.distinct.remove _
    refine List.Pairwise.imp_of_mem (fun {a b} ha hb hab => ?_) hdist
    rwa [State.idOf, State.idOf, hother _ (hkey a ha), hother _ (hkey b hb)]
  · intro tid p hp
    rw [hpthreads] at hp
    rcases eq_or_ne tid t.thread with rfl | hne
    · rw [Function.update_self] at hp
      cases hp
    · rw [Function.update_of_ne hne] at hp
      rw [hother _ (hi.handle_ne ht hp hne)]
      exact hi.pthreads tid p hp
  · intro h' ho
    obtain ⟨ho', hne⟩ := hopen h' ho
    rw [hother h' hne]
    exact hi.opened h' ho'

/-- A handle under which there is an object is not free. -/
theorem ne_of_free {h' : ℕ} (hfree : s.heap h = none) (ht : s.heap h' = some t) : h' ≠ h := by
  rintro rfl
  rw [hfree] at ht
  cases ht

/-- A new object does not change the `pthread_t` behind a key that is there. -/
theorem Inv.idOf_extend (hi : Inv s) (hfree : s.heap h = none)
    (hheap : s'.heap = Function.update s.heap h (some t)) {e : ℕ × ℕ} (he : e ∈ s.entries) :
    s'.idOf e.1 = s.idOf e.1 := by
  obtain ⟨-, t₁, ht₁, -⟩ := hi.entries e he
  rw [State.idOf, State.idOf, hheap, Function.update_of_ne (ne_of_free hfree ht₁)]

theorem Inv.distinct_extend (hi : Inv s) (hfree : s.heap h = none)
    (hheap : s'.heap = Function.update s.heap h (some t)) :
    ListDictionary.Distinct s'.idOf s.entries := by
  refine List.Pairwise.imp_of_mem (fun {a b} ha hb hab => ?_) hi.distinct
  rwa [hi.idOf_extend hfree hheap ha, hi.idOf_extend hfree hheap hb]

/-- **A new object appears** under a free handle, which is then open. What was there stays, and
what is new is about the object. -/
theorem Inv.extend (hi : Inv s) (hfree : s.heap h = none)
    (hheap : s'.heap = Function.update s.heap h (some t)) (hd : t.detached = false)
    (hopen : s'.isOpen = Function.update s.isOpen h true)
    (hstays : ∀ e ∈ s.entries, e ∈ s'.entries)
    (hentry : ∀ e ∈ s'.entries, e ∈ s.entries ∨ e = (h, h) ∧ t.started = true)
    (hdistinct : ListDictionary.Distinct s'.idOf s'.entries)
    (hruns : ∀ tid p, s.pthreads tid = some p → s'.pthreads tid = some p)
    (hpthread : ∀ tid p, s'.pthreads tid = some p → s.pthreads tid = some p ∨
      p.handle = h ∧ t.thread = tid ∧ t.started = true ∧ t.joined = false)
    (hok : ObjectOk s' h t) : Inv s' := by
  have hself : s'.heap h = some t := by rw [hheap, Function.update_self]
  have hother : ∀ {h' t₁}, s.heap h' = some t₁ → s'.heap h' = some t₁ := fun ht₁ => by
    rw [hheap, Function.update_of_ne (ne_of_free hfree ht₁), ht₁]
  refine ⟨?_, ?_, hdistinct, ?_, ?_⟩
  · intro h' t₁ ht₁
    rcases eq_or_ne h' h with rfl | hne
    · rw [hself] at ht₁
      obtain rfl := Option.some.inj ht₁
      exact hok
    · rw [hheap, Function.update_of_ne hne] at ht₁
      obtain ⟨h₁, h₂, h₃, h₄⟩ := hi.objects h' t₁ ht₁
      exact ⟨h₁, fun hs₁ => ⟨(h₂ hs₁).1, hstays _ (h₂ hs₁).2⟩, h₃,
        fun hs₁ hj₁ => hruns _ _ (h₄ hs₁ hj₁)⟩
  · intro e he
    rcases hentry e he with he | ⟨rfl, hs⟩
    · obtain ⟨heq, t₁, ht₁, hs₁⟩ := hi.entries e he
      exact ⟨heq, t₁, hother ht₁, hs₁⟩
    · exact ⟨rfl, t, hself, hs⟩
  · intro tid p hp
    rcases hpthread tid p hp with hp | ⟨rfl, hrest⟩
    · obtain ⟨t₁, ht₁, hrest⟩ := hi.pthreads tid p hp
      exact ⟨t₁, hother ht₁, hrest⟩
    · exact ⟨t, hself, hrest⟩
  · intro h' ho
    rcases eq_or_ne h' h with rfl | hne
    · exact ⟨t, hself, hd⟩
    · rw [hopen, Function.update_of_ne hne] at ho
      obtain ⟨t₁, ht₁, hd₁⟩ := hi.opened h' ho
      exact ⟨t₁, hother ht₁, hd₁⟩

/-- **A thread is created**, with a `pthread_t` that no key points to. -/
theorem Inv.create (hi : Inv s) (hfree : s.heap h = none) (hnew : s.pthreads tid = none)
    (hzero : tid ≠ 0) (hkeys : s.contains tid = false) : Inv (createThread s h tid false) := by
  have hentries : (createThread s h tid false).entries = s.entries ++ [(h, h)] := rfl
  have hself : (createThread s h tid false).heap h = some
      { started := true, signalled := false, detached := false, joined := false, exited := false,
        dwExitCode := 0, thread := tid } := Function.update_self ..
  have hpself : (createThread s h tid false).pthreads tid = some ⟨h, false, false⟩ :=
    Function.update_self ..
  have hpother : ∀ tid', tid' ≠ tid → (createThread s h tid false).pthreads tid' =
      s.pthreads tid' := fun tid' hne => Function.update_of_ne hne ..
  refine hi.extend hfree rfl rfl rfl ?_ ?_ ?_ ?_ ?_ ?_
  · intro e he
    exact List.mem_append_left _ he
  · intro e he
    rw [hentries, List.mem_append, List.mem_singleton] at he
    exact he.imp_right fun heq => ⟨heq, rfl⟩
  · rw [hentries, ListDictionary.Distinct, List.pairwise_append]
    refine ⟨hi.distinct_extend hfree rfl, List.pairwise_singleton _ _, ?_⟩
    intro a ha b hb
    rw [List.mem_singleton.mp hb, hi.idOf_extend hfree rfl ha, idOf_eq hself]
    intro heq
    exact Bool.false_ne_true (hkeys.symm.trans (contains_iff.mpr ⟨a, ha, heq⟩))
  · intro tid' p hp
    rw [hpother, hp]
    rintro rfl
    rw [hp] at hnew
    cases hnew
  · intro tid' p hp
    rcases eq_or_ne tid' tid with rfl | hne
    · rw [hpself] at hp
      obtain rfl := Option.some.inj hp
      exact Or.inr ⟨rfl, rfl, rfl, rfl⟩
    · exact Or.inl (by rwa [hpother tid' hne] at hp)
  · exact ⟨nofun, fun _ => ⟨hzero, by simp [hentries]⟩, nofun, fun _ _ => hpself⟩

/-- A thread is created suspended: it is not entered in the list. -/
theorem Inv.create_suspended (hi : Inv s) (hfree : s.heap h = none) (tid : ℕ) :
    Inv (createThread s h tid true) :=
  hi.extend hfree rfl rfl rfl (fun _ he => he) (fun _ he => Or.inl he)
    (hi.distinct_extend hfree rfl) (fun _ _ hp => hp) (fun _ _ hp => Or.inl hp)
    ⟨fun _ => ⟨rfl, rfl⟩, nofun, nofun, nofun⟩

/-! ### The calls -/

/-- **What a wait can do**: it times out or fails, it finds the thread joined, or it joins it. -/
theorem Inv.wait_cases (hi : Inv s) (ht : s.heap h = some t) (hd : t.detached = false) {r : ℕ}
    (hw : waitForSingleObject s h = some (s', r)) :
    (s' = s ∧ r ≠ waitObject0 ∧ (t.started = true → t.signalled = false)) ∨
      (s' = s ∧ r = waitObject0 ∧ t.started = true ∧ t.joined = true) ∨
      (s' = (s.setPThread t.thread none).setThread h (some { t with joined := true }) ∧
        r = waitObject0 ∧ t.started = true ∧ t.signalled = true ∧ t.joined = false) := by
  have hok := hi.objects h t ht
  simp only [waitForSingleObject, ht] at hw
  split_ifs at hw with hsig hj
  · cases hw
    exact Or.inl ⟨rfl, by decide, fun _ => by simpa using hsig⟩
  · cases hw
    refine Or.inr (Or.inl ⟨rfl, rfl, ?_, hj⟩)
    cases hs : t.started with
    | true => rfl
    | false => exact absurd ((hok.unstarted hs).2.symm.trans hj) Bool.false_ne_true
  · have hsig' : t.signalled = true := by simpa using hsig
    have hj' : t.joined = false := by simpa using hj
    rcases Bool.eq_false_or_eq_true t.started with hs | hs
    · have hjoin : pthreadJoin s t.thread = some (s.setPThread t.thread none, true) := by
        simp only [pthreadJoin, hok.alive hs hj', hd, hsig', Bool.false_eq_true, if_false, if_true]
      rw [hjoin] at hw
      cases hw
      exact Or.inr (Or.inr ⟨rfl, rfl, hs, hsig', hj'⟩)
    · -- A thread that has not been started cannot be joined.
      have hjoin : pthreadJoin s t.thread = some (s, false) := by
        rw [pthreadJoin, (hok.unstarted hs).1, hi.pthreads_zero]
      rw [hjoin] at hw
      cases hw
      exact Or.inl ⟨rfl, by decide, fun hs' => absurd (hs.symm.trans hs') Bool.false_ne_true⟩

/-- The state after a join keeps the invariant. -/
theorem Inv.join (hi : Inv s) (ht : s.heap h = some t) (hs : t.started = true)
    (hsig : t.signalled = true) (hd : t.detached = false) :
    Inv ((s.setPThread t.thread none).setThread h (some { t with joined := true })) := by
  refine hi.update { t with joined := true } ht hs hs rfl (fun _ => ⟨hsig, rfl⟩) nofun
    rfl rfl rfl fun h' ho => ⟨ho, fun _ => hd⟩

/-- **A wait keeps the invariant.** -/
theorem Inv.wait (hi : Inv s) (ho : s.isOpen h = true) {r : ℕ}
    (hw : waitForSingleObject s h = some (s', r)) : Inv s' := by
  obtain ⟨t, ht, hd⟩ := hi.opened h ho
  obtain ⟨rfl, -⟩ | ⟨rfl, -⟩ | ⟨rfl, -, hs, hsig, -⟩ := hi.wait_cases ht hd hw
  · exact hi
  · exact hi
  · exact hi.join ht hs hsig hd

/-- A started object that is freed after its thread has been forgotten. -/
theorem Inv.cleanup (hi : Inv s) (ht : s.heap h = some t) (hs : t.started = true)
    (hp : s.pthreads t.thread = none)
    (hopen : ∀ h', s'.isOpen h' = true → s.isOpen h' = true ∧ h' ≠ h)
    (hheap : s'.heap = (cleanupHandle s h).heap)
    (hentries : s'.entries = (cleanupHandle s h).entries)
    (hpthreads : s'.pthreads = (cleanupHandle s h).pthreads) : Inv s' := by
  obtain ⟨h₁, h₂, h₃, -⟩ := cleanupHandle_eq ht
  refine hi.remove ht hs (hheap.trans h₁) (hentries.trans h₂) ?_ hopen
  rw [hpthreads, h₃]
  exact (Function.update_eq_self_iff.mpr hp.symm).symm

/-- A handle that is closed is not open. -/
theorem isOpen_close (s : State) (h h' : ℕ)
    (ho : Function.update s.isOpen h false h' = true) : s.isOpen h' = true ∧ h' ≠ h := by
  rcases eq_or_ne h' h with rfl | hne
  · rw [Function.update_self] at ho
    cases ho
  · rw [Function.update_of_ne hne] at ho
    exact ⟨ho, hne⟩

/-- A handle may be closed without anything else happening. -/
theorem Inv.close_only (hi : Inv s) (h : ℕ) :
    Inv { s with isOpen := Function.update s.isOpen h false } :=
  ⟨fun h' t ht => ⟨(hi.objects h' t ht).unstarted, (hi.objects h' t ht).started,
    (hi.objects h' t ht).joined, (hi.objects h' t ht).alive⟩, hi.entries, hi.distinct,
    hi.pthreads, fun h' ho => hi.opened h' (isOpen_close s h h' ho).1⟩

/-- **A close keeps the invariant.** -/
theorem Inv.close (hi : Inv s) (ho : s.isOpen h = true)
    (hc : threadCloseHandle s h = some s') :
    Inv { s' with isOpen := Function.update s'.isOpen h false } := by
  obtain ⟨t, ht, hd⟩ := hi.opened h ho
  simp only [threadCloseHandle, ht] at hc
  rcases Bool.eq_false_or_eq_true t.started with hs | hs
  · rw [if_neg (by simp [hi.contains_eq_true ht hs]), if_pos hs] at hc
    cases hw : waitForSingleObject s h with
    | none =>
      rw [hw] at hc
      cases hc
    | some out =>
      obtain ⟨s₁, r⟩ := out
      simp only [hw] at hc
      obtain ⟨rfl, hr, hsig⟩ | ⟨rfl, hr, -, hj⟩ | ⟨rfl, hr, -, hsig, -⟩ := hi.wait_cases ht hd hw
      · -- The thread has not ended: it is detached.
        rw [if_pos hr] at hc
        obtain rfl := Option.some.inj hc
        have hj : t.joined = false := by
          rw [← Bool.not_eq_true]
          intro hj
          exact Bool.false_ne_true ((hsig hs).symm.trans ((hi.objects h t ht).joined hj))
        have hp := (hi.objects h t ht).alive hs hj
        rw [hsig hs] at hp
        have hdetach : pthreadDetach (s₁.setThread h (some { t with detached := true })) t.thread =
            (s₁.setThread h (some { t with detached := true })).setPThread t.thread
              (some ⟨h, false, true⟩) := by
          simp only [pthreadDetach, State.setThread, hp, Bool.false_eq_true, if_false]
        rw [hdetach]
        obtain ⟨hheap, hentries, hpthreads, hopen⟩ := freeIfEmpty_eq
          ((s₁.setThread h (some { t with detached := true })).setPThread t.thread
            (some ⟨h, false, true⟩))
        refine hi.update { t with detached := true } ht hs hs rfl
          (fun hj' => absurd (hj.symm.trans hj') Bool.false_ne_true)
          (fun _ => by simp only [hsig hs]) hheap hentries hpthreads fun h' ho' => ?_
        simp only [hopen] at ho'
        obtain ⟨ho₁, hne⟩ := isOpen_close s₁ h h' ho'
        exact ⟨ho₁, fun heq => absurd heq hne⟩
      · rw [if_neg (not_not.mpr hr)] at hc
        obtain rfl := Option.some.inj hc
        obtain ⟨hheap, hentries, hpthreads, hopen⟩ := freeIfEmpty_eq (cleanupHandle s₁ h)
        refine hi.cleanup ht hs (hi.pthreads_of_joined ht hs hj) (fun h' ho' => ?_) hheap hentries
          hpthreads
        simp only [hopen, (cleanupHandle_eq ht).2.2.2] at ho'
        exact isOpen_close s₁ h h' ho'
      · rw [if_neg (not_not.mpr hr)] at hc
        obtain rfl := Option.some.inj hc
        have hi₁ := hi.join ht hs hsig hd
        have ht₁ : ((s.setPThread t.thread none).setThread h
            (some { t with joined := true })).heap h = some { t with joined := true } :=
          Function.update_self ..
        obtain ⟨hheap, hentries, hpthreads, hopen⟩ := freeIfEmpty_eq (cleanupHandle
          ((s.setPThread t.thread none).setThread h (some { t with joined := true })) h)
        refine hi₁.cleanup ht₁ hs (hi₁.pthreads_of_joined ht₁ hs rfl) (fun h' ho' => ?_) hheap
          hentries hpthreads
        simp only [hopen, (cleanupHandle_eq ht₁).2.2.2] at ho'
        exact isOpen_close s h h' ho'
  · -- The `pthread_t` is still 0, which is no key.
    have hno : s.contains t.thread = false := by
      rw [← Bool.not_eq_true, contains_iff, ((hi.objects h t ht).unstarted hs).1]
      rintro ⟨e, he, hid⟩
      obtain ⟨-, t₁, ht₁, hs₁⟩ := hi.entries e he
      rw [idOf_eq ht₁] at hid
      exact ((hi.objects _ t₁ ht₁).started hs₁).1 (Option.some.inj hid)
    rw [hno] at hc
    obtain rfl := Option.some.inj hc
    exact hi.close_only h

/-- **The end of a thread keeps the invariant**: its event is set, and its object is freed if
its handle has been closed. -/
theorem Inv.finish (hi : Inv s) (t' : WinprThread) (hp : s.pthreads tid = some p)
    (ht : s.heap p.handle = some t)
    (hstarted : t'.started = t.started) (hthread : t'.thread = t.thread)
    (hjoined : t'.joined = t.joined) (hdetached : t'.detached = t.detached)
    (hsig : t'.signalled = true) :
    Inv (pthreadExit
      (if t'.detached || !t'.started then cleanupHandle (s.setThread p.handle (some t')) p.handle
      else s.setThread p.handle (some t')) tid) := by
  obtain ⟨t₁, ht₁, hthread₁, hs, hj⟩ := hi.pthreads tid p hp
  rw [ht] at ht₁
  obtain rfl := Option.some.inj ht₁
  obtain rfl := hthread₁
  have halive := (hi.objects _ t ht).alive hs hj
  rw [hp] at halive
  have hpd : p.detached = t.detached := congrArg PThread.detached (Option.some.inj halive)
  rw [hstarted, hs, hdetached, Bool.not_true, Bool.or_false]
  rcases Bool.eq_false_or_eq_true t.detached with hd | hd
  · rw [if_pos hd]
    have hself : (s.setThread p.handle (some t')).heap p.handle = some t' :=
      Function.update_self ..
    obtain ⟨hheap, hentries, hpthreads, hopen⟩ := cleanupHandle_eq hself
    have hcompare : (s.setThread p.handle (some t')).threadCompare t'.thread =
        s.threadCompare t.thread := by
      funext key
      rw [State.threadCompare, State.threadCompare, hthread]
      rcases eq_or_ne key p.handle with rfl | hne
      · rw [idOf_eq hself, idOf_eq ht, hthread]
      · have hkey : (s.setThread p.handle (some t')).heap key = s.heap key :=
          Function.update_of_ne hne ..
        rw [State.idOf, State.idOf, hkey]
    have hexit : pthreadExit (cleanupHandle (s.setThread p.handle (some t')) p.handle) t.thread =
        (cleanupHandle (s.setThread p.handle (some t')) p.handle).setPThread t.thread none := by
      rw [pthreadExit, hpthreads, State.setThread, hp]
      simp only [hpd, hd, if_true]
    rw [hexit]
    refine hi.remove ht hs ?_ ?_ ?_ fun h' ho => ?_
    · rw [State.setPThread, hheap, State.setThread, Function.update_idem]
    · rw [← hcompare]
      exact hentries
    · rw [State.setPThread, hpthreads, State.setThread]
    · rw [State.setPThread, hopen, State.setThread] at ho
      refine ⟨ho, ?_⟩
      rintro rfl
      obtain ⟨t₁, ht₁, hd₁⟩ := hi.opened _ ho
      rw [ht] at ht₁
      rw [← Option.some.inj ht₁, hd] at hd₁
      cases hd₁
  · rw [hd, if_neg Bool.false_ne_true]
    have hexit : pthreadExit (s.setThread p.handle (some t')) t.thread =
        (s.setThread p.handle (some t')).setPThread t.thread (some ⟨p.handle, true, false⟩) := by
      rw [pthreadExit, State.setThread, hp]
      simp only [hpd, hd, Bool.false_eq_true, if_false]
    rw [hexit]
    refine hi.update t' ht hs (hstarted.trans hs) hthread ?_ ?_ rfl rfl rfl ?_
    · intro hj'
      exact absurd (hj.symm.trans (hjoined.symm.trans hj')) Bool.false_ne_true
    · intro _
      rw [hsig, hdetached, hd]
    · exact fun h' ho => ⟨ho, fun _ => hdetached.trans hd⟩

/-- **A thread's `pthread_t` leads to its own object.** -/
theorem Inv.getCurrentThread_self (hi : Inv s) (hp : s.pthreads tid = some p) :
    s.contains tid = true ∧ getCurrentThread s tid = some p.handle := by
  obtain ⟨t, ht, rfl, hs, -⟩ := hi.pthreads tid p hp
  exact ⟨hi.contains_eq_true ht hs, hi.getCurrentThread_eq_some ht hs⟩

/-- **`ExitThread` sets the fields of the thread's own object.** -/
theorem Inv.exitThreadMark_self (hi : Inv s) (hp : s.pthreads tid = some p) (dwExitCode : ℕ) :
    ∃ t, s.heap p.handle = some t ∧ exitThreadMark s tid dwExitCode = some (p.handle,
      { t with exited := true, dwExitCode := dwExitCode, signalled := true },
      s.setThread p.handle
        (some { t with exited := true, dwExitCode := dwExitCode, signalled := true })) := by
  obtain ⟨t, ht, -⟩ := hi.pthreads tid p hp
  refine ⟨t, ht, ?_⟩
  simp only [exitThreadMark, (hi.getCurrentThread_self hp).2, ht]

/-- What `ExitThread` does, in full. -/
theorem Inv.exitThread_eq (hi : Inv s) (hp : s.pthreads tid = some p)
    (ht : s.heap p.handle = some t) (dwExitCode : ℕ)
    (ht' : t' = { t with exited := true, dwExitCode := dwExitCode, signalled := true }) :
    exitThread s tid dwExitCode = some (pthreadExit
      (if t'.detached || !t'.started then cleanupHandle (s.setThread p.handle (some t')) p.handle
      else s.setThread p.handle (some t')) tid) := by
  obtain ⟨t₁, ht₁, hmark⟩ := hi.exitThreadMark_self hp dwExitCode
  rw [ht] at ht₁
  obtain rfl := Option.some.inj ht₁
  rw [exitThread, (hi.getCurrentThread_self hp).1, hmark, ht']
  rfl

/-- **Every call keeps the invariant**, if a new `pthread_t` is not in use as a key. -/
theorem inv_step (hi : Inv s) {e : Label} (hok : IdUnused s e) (hs : step s e = some s') :
    Inv s' := by
  cases e with
  | create h tid suspended =>
    simp only [step] at hs
    split_ifs at hs with hnew
    obtain rfl := Option.some.inj hs
    rw [Bool.and_eq_true, Bool.or_eq_true, Option.isNone_iff_eq_none] at hnew
    cases suspended with
    | true => exact hi.create_suspended hnew.1 tid
    | false =>
      have hp : s.pthreads tid = none := by simpa using hnew.2
      exact hi.create hnew.1 hp hok.1 hok.2
  | wait h =>
    simp only [step] at hs
    split_ifs at hs with ho
    obtain ⟨⟨s₁, r⟩, hw, rfl⟩ := Option.map_eq_some_iff.mp hs
    exact hi.wait ho hw
  | close h =>
    simp only [step] at hs
    split_ifs at hs with ho
    obtain ⟨s₁, hc, rfl⟩ := Option.map_eq_some_iff.mp hs
    exact hi.close ho hc
  | ret tid rc =>
    simp only [step] at hs
    split_ifs at hs with hrun
    simp only [threadLauncherExit] at hs
    split at hs
    · cases hs
    · next p hp =>
      split at hs
      · cases hs
      · next t ht =>
        obtain rfl := Option.some.inj hs
        exact hi.finish { t with
          dwExitCode := if t.exited then t.dwExitCode else rc
          signalled := true } hp ht rfl rfl rfl rfl rfl
  | exitThread tid dwExitCode =>
    simp only [step] at hs
    split_ifs at hs with hrun
    obtain ⟨p, hp⟩ : ∃ p, s.pthreads tid = some p := by
      rw [State.running] at hrun
      split at hrun
      · cases hrun
      · next p hp => exact ⟨p, hp⟩
    obtain ⟨t, ht, -⟩ := hi.pthreads tid p hp
    rw [hi.exitThread_eq hp ht dwExitCode rfl] at hs
    obtain rfl := Option.some.inj hs
    exact hi.finish _ hp ht rfl rfl rfl rfl rfl
  | getCurrentThread tid =>
    simp only [step] at hs
    split_ifs at hs
    obtain rfl := Option.some.inj hs
    exact hi

theorem inv_start : Inv State.start :=
  ⟨nofun, nofun, List.Pairwise.nil, nofun, nofun⟩

theorem inv_of_reaches (hrun : ReachesIf step IdUnused State.start s) : Inv s :=
  hrun.invariant inv_start fun _ _ _ hi hok hs => inv_step hi hok hs

/-! ### A thread resolves to its own handle -/

/-- **A thread resolves to its own handle**: the thread `tid`, which was created with the handle
`h`, gets `h` from `_GetCurrentThread`; and when it calls `ExitThread`, the exit code, the
flag and the event of `h` are set, and no other handle's fields change. -/
def ResolvesTo (s : State) (tid h : ℕ) : Prop :=
  getCurrentThread s tid = some h ∧
    ∀ dwExitCode, ∃ t, s.heap h = some t ∧
      (∃ s₁, exitThreadMark s tid dwExitCode = some (h,
          { t with exited := true, dwExitCode := dwExitCode, signalled := true }, s₁) ∧
        s₁.heap = Function.update s.heap h
          (some { t with exited := true, dwExitCode := dwExitCode, signalled := true })) ∧
      ∃ s', exitThread s tid dwExitCode = some s' ∧ ∀ h', h' ≠ h → s'.heap h' = s.heap h'

/-- The end of a thread touches no object. -/
theorem pthreadExit_heap (s : State) (tid : ℕ) : (pthreadExit s tid).heap = s.heap := by
  rw [pthreadExit]
  split <;> rfl

/-- **In every run in which the `pthread_t` of a new thread is not the key of an entry that is
still in the list, every running thread resolves to its own handle.** -/
theorem resolves_self (hrun : ReachesIf step IdUnused State.start s) :
    ∀ tid p, s.pthreads tid = some p → p.terminated = false → ResolvesTo s tid p.handle := by
  have hi := inv_of_reaches hrun
  intro tid p hp _
  refine ⟨(hi.getCurrentThread_self hp).2, fun dwExitCode => ?_⟩
  obtain ⟨t, ht, hmark⟩ := hi.exitThreadMark_self hp dwExitCode
  refine ⟨t, ht, ⟨_, hmark, rfl⟩, _, hi.exitThread_eq hp ht dwExitCode rfl, fun h' hne => ?_⟩
  have hset : (s.setThread p.handle (some { t with
      exited := true, dwExitCode := dwExitCode, signalled := true })).heap h' = s.heap h' :=
    Function.update_of_ne hne ..
  rw [pthreadExit_heap]
  split_ifs
  · rw [(cleanupHandle_eq (Function.update_self ..)).1, Function.update_of_ne hne, hset]
  · exact hset

/-- A thread ends and is joined; its handle stays open; the next thread has its `pthread_t`. -/
def reuseAfterJoin : List Label :=
  [.create 1 7 false, .ret 7 0, .wait 1, .create 2 7 false]

/-- **A thread does not resolve to its own handle in every run**: the second thread gets the
handle of the first. -/
theorem resolves_not_always : ¬ ∀ s, Reaches step State.start s →
    ∀ tid p, s.pthreads tid = some p → p.terminated = false → ResolvesTo s tid p.handle := by
  intro hall
  have hres := hall _ (reaches_of_run reuseAfterJoin (run_eq_final (by decide +kernel))) 7
    ⟨2, false, false⟩ (by decide +kernel) rfl
  exact absurd hres.1 (by decide +kernel)

/-- Two threads at the same time. -/
def twoThreads : List Label := [.create 1 7 false, .create 2 8 false]

theorem resolves_self_twoThreads :
    ∃ s, run step State.start twoThreads = some s ∧ ResolvesTo s 8 2 :=
  ⟨_, run_eq_final (by decide +kernel), resolves_self (reachesIf_of_run twoThreads
    (by decide +kernel) (run_eq_final (by decide +kernel))) 8 ⟨2, false, false⟩
    (by decide +kernel) rfl⟩

/-! ### No dangling entries -/

/-- Every entry's key and value point into objects that have not been freed. -/
def NoDangling (s : State) : Prop :=
  ∀ e ∈ s.entries, (s.heap e.1).isSome = true ∧ (s.heap e.2).isSome = true

/-- Cleaning up any object in this state removes its own entry before it is freed. -/
def CleansUpItself (s : State) : Prop :=
  ∀ h, (s.heap h).isSome = true → ∀ e ∈ (cleanupHandle s h).entries, e.1 ≠ h ∧ e.2 ≠ h

/-- **In every run in which the `pthread_t` of a new thread is not the key of an entry that is
still in the list, no entry dangles**, and `cleanup_handle` removes the entry of the object
that it frees. -/
theorem no_dangling (hrun : ReachesIf step IdUnused State.start s) :
    NoDangling s ∧ CleansUpItself s := by
  have hi := inv_of_reaches hrun
  constructor
  · intro e he
    obtain ⟨heq, t, ht, -⟩ := hi.entries e he
    rw [← heq, ht]
    exact ⟨rfl, rfl⟩
  · intro h hsome e he
    obtain ⟨t, ht⟩ := Option.isSome_iff_exists.mp hsome
    have hmem : e ∈ s.entries := by
      rw [(cleanupHandle_eq ht).2.1] at he
      exact List.mem_of_mem_eraseP he
    obtain ⟨heq, t₁, ht₁, hs₁⟩ := hi.entries e hmem
    suffices hne : e.1 ≠ h from ⟨hne, heq ▸ hne⟩
    intro heh
    rw [heh, ht] at ht₁
    rw [← Option.some.inj ht₁] at hs₁
    refine ((hi.mem_cleanupHandle_iff ht hs₁).mp he).2 (Prod.ext heh ?_)
    rw [← heq, heh]

/-- **An entry dangles in some run**: the second thread ends and its handle is closed; the
entry that is removed is the first thread's, and the second's is left behind. -/
theorem dangling_entry : ¬ ∀ s, Reaches step State.start s → NoDangling s ∧ CleansUpItself s := by
  intro hall
  have hdang := (hall _ (reaches_of_run (reuseAfterJoin ++ [.ret 7 0, .close 2])
    (run_eq_final (by decide +kernel)))).1 (2, 2) (by decide +kernel)
  exact absurd hdang.1 (by decide +kernel)

/-- The first of two threads ends, and its handle is closed. -/
def closeFirst : List Label := twoThreads ++ [.exitThread 7 3, .wait 1, .close 1]

theorem no_dangling_closeFirst :
    ∃ s, run step State.start closeFirst = some s ∧ s.threadList = some [(2, 2)] ∧
      NoDangling s ∧ CleansUpItself s :=
  ⟨_, run_eq_final (by decide +kernel), by decide +kernel, no_dangling
    (reachesIf_of_run closeFirst (by decide +kernel) (run_eq_final (by decide +kernel)))⟩

end Thread

end Libuzi
