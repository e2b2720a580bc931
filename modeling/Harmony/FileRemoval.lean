import Harmony.FileLifetime

/-!
# Removing one file

When a file disappears, its entry asks the worker to remove it. The worker
keeps its files in a multimap by relative path, where the plain file and the
compressed ones stand under the same key, and erases by the key
(`FileTable.removeStaticFile`). What goes is thus everything under that key,
and only where the entry is the only one there is it exactly the entry
(`FileTable.removesOnly_iff`).

`FileWorker.step_cases` says what any step of a worker can do to its
entries; in a run in which every file that disappears is the only one under
its path, an entry is there until its own file disappears
(`FileWorker.holds_of_run`).
-/

namespace FileTable

/-- **`Worker::remove_static_file`.** -/
def removeStaticFile (t : FileTable) (k : KeptFile) : FileTable :=
  t.erase k.entry.relpath

/-- **One entry is removed**, and every other one stays and is found, by its
identity and under its path. -/
structure RemovesOnly (t : FileTable) (k : KeptFile) (t' : FileTable) :
    Prop where
  kept_eq : t'.kept = t.kept.filter fun k' => k'.id ≠ k.id
  found : ∀ k' ∈ t.kept, k' ≠ k →
    t'.find k'.id = some k' ∧ k'.entry ∈ knownAs t'.files k'.entry.relpath

/-- **An entry is alone under its path.** -/
def Alone (t : FileTable) (k : KeptFile) : Prop :=
  ∀ k' ∈ t.kept, k'.entry.relpath = k.entry.relpath → k' = k

instance (t : FileTable) (k : KeptFile) : Decidable (t.Alone k) :=
  inferInstanceAs (Decidable (∀ k' ∈ t.kept, _))

variable {t : FileTable} {k : KeptFile}

/-- An entry that is there is known under its path. -/
theorem mem_knownAs (hk : k ∈ t.kept) :
    k.entry ∈ knownAs t.files k.entry.relpath := by
  rw [knownAs_files]
  exact List.mem_map_of_mem (List.mem_filter.mpr ⟨hk, decide_eq_true rfl⟩)

/-- Where an entry is alone, other paths are other entries. -/
theorem relpath_ne_iff (hk : k ∈ t.kept) (halone : t.Alone k) {k' : KeptFile}
    (hk' : k' ∈ t.kept) :
    k'.entry.relpath ≠ k.entry.relpath ↔ k'.id ≠ k.id := by
  refine not_congr ⟨fun hpath => ?_, fun hid => ?_⟩
  · rw [halone k' hk' hpath]
  · rw [eq_of_id_eq hk' hk hid]

/-- **Erasing by the path removes the entry alone exactly if it is alone
there.** -/
theorem removesOnly_iff (hk : k ∈ t.kept) :
    t.RemovesOnly k (t.removeStaticFile k) ↔ t.Alone k := by
  constructor
  · intro h k' hk' hpath
    by_contra hne
    obtain ⟨hkept, -⟩ := find_eq_some_iff.mp (h.found k' hk' hne).1
    exact of_decide_eq_true (List.mem_filter.mp hkept).2 hpath
  · intro halone
    have hkept : (t.removeStaticFile k).kept
        = t.kept.filter fun k' => k'.id ≠ k.id := by
      refine List.filter_congr fun k' hk' => ?_
      rw [Bool.eq_iff_iff, decide_eq_true_iff, decide_eq_true_iff]
      exact relpath_ne_iff hk halone hk'
    refine ⟨hkept, fun k' hk' hne => ?_⟩
    have hmem : k' ∈ (t.removeStaticFile k).kept := by
      rw [hkept]
      refine List.mem_filter.mpr ⟨hk', decide_eq_true fun hid => hne ?_⟩
      exact eq_of_id_eq hk' hk hid
    exact ⟨find_eq_some_iff.mpr ⟨hmem, rfl⟩, mem_knownAs hmem⟩

/-- Of an entry that is alone nothing but itself goes. -/
theorem Alone.holds (halone : t.Alone k) {id : ℕ} (hid : t.Holds id)
    (hne : id ≠ k.id) : (t.removeStaticFile k).Holds id := by
  obtain ⟨k', hk', rfl⟩ := hid
  refine holds_erase.mpr ⟨k', hk', rfl, fun hpath => hne ?_⟩
  rw [halone k' hk' hpath]

end FileTable

namespace FileWorker

variable {N : ℕ} {root : StaticRoot} {w w' : FileWorker}

/-- **A file that disappears is alone** under its path. -/
def DeletesAlone (w : FileWorker) : Step N → Prop
  | .deleted id => ∀ k ∈ w.table.kept, k.id = id → k.entry.watch = true →
    w.table.Alone k
  | _ => True

/-- An entry stays at a step that is no report on its own file. -/
theorem holds_of_step {e : Step N} (halone : w.DeletesAlone e)
    (h : w.step root e = .ok w') {id : ℕ} (hid : w.table.Holds id)
    (hne : e ≠ .deleted id) : w'.table.Holds id := by
  rcases step_cases h with hgoes | ⟨k, hk, hwatch, rfl, rfl⟩
  · exact hgoes.keeps id hid
  · refine (halone k hk rfl hwatch).holds hid fun hsame => hne ?_
    rw [hsame]

/-- **An entry stays until its own file disappears**, in a run in which every
file that disappears is alone under its path. -/
theorem holds_of_run {steps : List (Step N)}
    (halone : Run.Throughout (step root) DeletesAlone w steps)
    (hrun : Run.exec (step root) w steps = .ok w') {id : ℕ}
    (hid : w.table.Holds id) (hne : .deleted id ∉ steps) :
    w'.table.Holds id := by
  induction steps generalizing w with
  | nil =>
    cases hrun
    exact hid
  | cons e steps ih =>
    obtain ⟨w₁, hstep, hrest⟩ := Run.step_of_exec_cons hrun
    rw [List.mem_cons, not_or] at hne
    have hid₁ := holds_of_step halone.1 hstep hid fun heq => hne.1 heq.symm
    exact ih (halone.2 w₁ hstep) hrest hid₁ hne.2

instance (w : FileWorker) (e : Step N) : Decidable (w.DeletesAlone e) :=
  match e with
  | .deleted id => inferInstanceAs (Decidable (∀ k ∈ w.table.kept, k.id = id → _))
  | .load _ _ _ => isTrue trivial
  | .respond _ _ _ _ => isTrue trivial
  | .lookup _ _ _ => isTrue trivial
  | .send _ _ _ _ => isTrue trivial
  | .updated _ _ => isTrue trivial
  | .close _ => isTrue trivial

/-- **When a file disappears, exactly its entry is removed if and only if it
is alone under its path**, in whatever state the worker is; and in a run in
which this is so of every file that disappears, every other entry stays for
good. -/
theorem deleted_removesOnly_iff (root : StaticRoot) :
    (∀ (w w' : FileWorker) (k : KeptFile), k ∈ w.table.kept →
      k.entry.watch = true →
      w.step root (.deleted k.id : Step N) = .ok w' →
      (w.table.RemovesOnly k w'.table
        ↔ ∀ k' ∈ w.table.kept, k'.entry.relpath = k.entry.relpath → k' = k))
    ∧ ∀ (before after : List (Step N)) (w w' : FileWorker),
      Run.exec (step root) start before = .ok w →
      Run.Throughout (step root) DeletesAlone w after →
      Run.exec (step root) w after = .ok w' →
      ∀ k ∈ w.table.kept, .deleted k.id ∉ after → w'.table.Holds k.id := by
  constructor
  · intro w w' k hk hwatch hstep
    rw [step_deleted hk hwatch] at hstep
    cases hstep
    exact FileTable.removesOnly_iff hk
  · intro before after w w' _ halone hrun k hk hne
    exact holds_of_run halone hrun ⟨k, hk, rfl⟩ hne

/-- The index and its compressed variant, loaded when the server starts. -/
def bothLoaded : List (Step 16) :=
  [.load fullDisk (fun _ => tenInfo) (bytes "index.html"),
    .load fullDisk (fun _ => tenInfo) (bytes "index.html.br")]

/-- Two files that have nothing to do with each other. -/
def twoLoaded : List (Step 16) :=
  [.load fullDisk (fun _ => tenInfo) (bytes "index.html"),
    .load fullDisk (fun _ => tenInfo) (bytes "about.html")]

/-- The one disappears, and the other stays. -/
theorem twoLoaded_holds :
    ∃ w w', Run.exec (step wwwRoot) start twoLoaded = .ok w
      ∧ Run.exec (step wwwRoot) w [(.deleted 0 : Step 16)] = .ok w'
      ∧ w'.table.Holds 1 := by
  obtain ⟨w, hrun, hkept⟩ := Run.exists_of_map_exec
    (show (Run.exec (step wwwRoot) start twoLoaded).map
      (fun w => decide ((w.table.kept.map KeptFile.id = [0, 1]
        ∧ Run.Throughout (step wwwRoot) DeletesAlone w
          [(.deleted 0 : Step 16)])
        ∧ ((Run.exec (step wwwRoot) w [(.deleted 0 : Step 16)]).map
          (fun w => w.table.kept.map KeptFile.id) = .ok [1]))) = .ok true by
      decide +kernel)
  obtain ⟨⟨hids, halone⟩, hafter⟩ := of_decide_eq_true hkept
  obtain ⟨w', hrun', -⟩ := Run.exists_of_map_exec hafter
  have hone : 1 ∈ w.table.kept.map KeptFile.id := by
    rw [hids]
    decide
  obtain ⟨k, hk, hid⟩ := List.mem_map.mp hone
  refine ⟨w, w', hrun, hrun', hid ▸ ?_⟩
  refine (deleted_removesOnly_iff (N := 16) wwwRoot).2 twoLoaded
    [.deleted 0] w w' hrun halone hrun' k hk ?_
  rw [hid, List.mem_singleton]
  intro heq
  cases heq

/-- **The compressed variant disappears**, and the plain file goes with it. -/
theorem bothLoaded_not_removesOnly :
    ¬ ∀ (root : StaticRoot) (steps : List (Step 16)) (w w' : FileWorker)
      (k : KeptFile), Run.exec (step root) start steps = .ok w →
      k ∈ w.table.kept → k.entry.watch = true →
      w.step root (.deleted k.id : Step 16) = .ok w' →
      w.table.RemovesOnly k w'.table := by
  intro h
  obtain ⟨w, hrun, hkept⟩ := Run.exists_of_map_exec
    (show (Run.exec (step wwwRoot) start bothLoaded).map
      (fun w => w.table.kept.map fun k =>
        (k.id, k.entry.relpath, k.entry.watch))
      = .ok [(0, bytes "/index.html", true), (1, bytes "/index.html", true)] by
      decide +kernel)
  have hmem : ∀ (id : ℕ) (path : Bytes), (id, path, true)
      ∈ w.table.kept.map (fun k => (k.id, k.entry.relpath, k.entry.watch)) →
      ∃ k ∈ w.table.kept, k.id = id ∧ k.entry.relpath = path
        ∧ k.entry.watch = true := by
    intro id path hmap
    obtain ⟨k, hk, heq⟩ := List.mem_map.mp hmap
    obtain ⟨hid, hrest⟩ := Prod.mk.inj heq
    obtain ⟨hpath, hwatch⟩ := Prod.mk.inj hrest
    exact ⟨k, hk, hid, hpath, hwatch⟩
  rw [hkept] at hmem
  obtain ⟨plain, hplain, hid₀, hpath₀, -⟩ := hmem 0 _ List.mem_cons_self
  obtain ⟨br, hbr, hid₁, hpath₁, hwatch⟩ :=
    hmem 1 _ (List.mem_cons_of_mem _ List.mem_cons_self)
  have honly := h wwwRoot bothLoaded w _ br hrun hbr hwatch
    (step_deleted hbr hwatch)
  have hsame := (FileTable.removesOnly_iff hbr).mp honly plain hplain
    (hpath₀.trans hpath₁.symm)
  rw [hsame, hid₁] at hid₀
  cases hid₀

end FileWorker
