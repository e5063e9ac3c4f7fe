import PathPolicy.Proofs.Changes

/-!
# Files that are written one after the other

Some files of a list can be written, and the others cannot (`Tree.canWrite`). Which ones these are
depends on the directories only, and writing changes no directory, so the order of the list does not
matter to it. Where the places of a list are different, each holds what was written there in the
end, if that could be written, and nothing else has changed (`Tree.get?_writeAll_of_mem`,
`Tree.get?_writeAll_of_ne`).

A host may refuse to write any other file too (`World.refusing`). What a program does there is said
by the list of files that it tries to write (`World.Tries`, `World.Does`).
-/

namespace PathPolicy

open Files (Path Place Tree)

namespace Files.Tree

def canWrite (t : Tree) (workingPlace : Place) (path : Path) : Bool :=
  (t.write workingPlace path []).isOk

/-- The tree after files were written one after the other, those that can be. -/
def writeAll (t : Tree) (workingPlace : Place) : List (Path × Bytes) → Tree
  | [] => t
  | (path, content) :: rest =>
    match t.write workingPlace path content with
    | .ok (_, t) => t.writeAll workingPlace rest
    | .error _ => t.writeAll workingPlace rest

section Write

variable {t t' : Tree} {workingPlace : Place} {path : Path} {q : Place}

theorem canWrite_iff : t.canWrite workingPlace path = true ↔ path.endsInSlash = false ∧
    ∃ node, t.resolve workingPlace path = .ok (placeOf workingPlace path, node) ∧
      node ≠ some .directory := by
  unfold canWrite
  cases hwrite : t.write workingPlace path [] with
  | error fault =>
    refine iff_of_false Bool.false_ne_true ?_
    rintro ⟨hslash, node, hresolve, hnode⟩
    rw [write_eq_ok_iff.2 ⟨hslash, ⟨node, hresolve, hnode⟩, rfl⟩] at hwrite
    cases hwrite
  | ok found =>
    obtain ⟨p, t'⟩ := found
    obtain ⟨hslash, ⟨node, hresolve, hnode⟩, -⟩ := write_eq_ok_iff.1 hwrite
    obtain ⟨rfl, -⟩ := resolve_eq_ok hresolve
    exact iff_of_true rfl ⟨hslash, node, hresolve, hnode⟩

theorem get?_ne_directory_of_canWrite (h : t.canWrite workingPlace path = true) :
    t.get? (placeOf workingPlace path) ≠ some .directory := by
  obtain ⟨-, node, hresolve, hnode⟩ := canWrite_iff.1 h
  obtain ⟨-, rfl⟩ := resolve_eq_ok hresolve
  exact hnode

theorem placeOf_ne_nil_of_canWrite (h : t.canWrite workingPlace path = true) :
    placeOf workingPlace path ≠ [] :=
  ne_nil_of_get?_ne (get?_ne_directory_of_canWrite h)

theorem write_of_canWrite (h : t.canWrite workingPlace path = true) (c : Bytes) :
    t.write workingPlace path c =
      .ok (placeOf workingPlace path, t.put (placeOf workingPlace path) (.file c)) := by
  obtain ⟨hslash, hresolve⟩ := canWrite_iff.1 h
  exact write_eq_ok_iff.2 ⟨hslash, hresolve, rfl⟩

theorem write_of_not_canWrite (h : t.canWrite workingPlace path = false) (c : Bytes) :
    ∃ fault, t.write workingPlace path c = .error fault := by
  cases hwrite : t.write workingPlace path c with
  | error fault => exact ⟨fault, rfl⟩
  | ok found =>
    obtain ⟨p, t'⟩ := found
    obtain ⟨hslash, ⟨node, hresolve, hnode⟩, -⟩ := write_eq_ok_iff.1 hwrite
    obtain ⟨rfl, -⟩ := resolve_eq_ok hresolve
    rw [canWrite_iff.2 ⟨hslash, node, hresolve, hnode⟩] at h
    cases h

/-- Whether a file can be written depends on the directories only. -/
theorem canWrite_congr (h : t.SameDirectories t') (workingPlace : Place) (path : Path) :
    t'.canWrite workingPlace path = t.canWrite workingPlace path := by
  have himp : ∀ {t t' : Tree}, t.SameDirectories t' → t.canWrite workingPlace path = true →
      t'.canWrite workingPlace path = true := by
    intro t t' h hcan
    obtain ⟨hslash, node, hresolve, -⟩ := canWrite_iff.1 hcan
    refine canWrite_iff.2 ⟨hslash, _, resolve_of_sameDirectories h hslash hresolve, fun hdir => ?_⟩
    exact get?_ne_directory_of_canWrite hcan ((h _).2 hdir)
  exact Bool.eq_iff_iff.2 ⟨himp h.symm, himp h⟩

theorem sameDirectories_put (h : t.get? q ≠ some .directory) (c : Bytes) :
    t.SameDirectories (t.put q (.file c)) := by
  intro r
  by_cases hr : r = q
  · subst hr
    rw [get?_put (ne_nil_of_get?_ne h)]
    exact iff_of_false h (by simp)
  · rw [get?_put_of_ne hr]

theorem writeAll_cons_of_canWrite (h : t.canWrite workingPlace path = true) (c : Bytes)
    (ws : List (Path × Bytes)) : t.writeAll workingPlace ((path, c) :: ws) =
      (t.put (placeOf workingPlace path) (.file c)).writeAll workingPlace ws := by
  rw [writeAll, write_of_canWrite h]

theorem writeAll_cons_of_not_canWrite (h : t.canWrite workingPlace path = false) (c : Bytes)
    (ws : List (Path × Bytes)) :
    t.writeAll workingPlace ((path, c) :: ws) = t.writeAll workingPlace ws := by
  obtain ⟨fault, hwrite⟩ := write_of_not_canWrite h c
  rw [writeAll, hwrite]

end Write

section WriteAll

variable {t : Tree} {workingPlace : Place} {ws : List (Path × Bytes)} {q : Place}

theorem writeAll_append (t : Tree) (workingPlace : Place) (ws ws' : List (Path × Bytes)) :
    t.writeAll workingPlace (ws ++ ws') =
      (t.writeAll workingPlace ws).writeAll workingPlace ws' := by
  induction ws generalizing t with
  | nil => rfl
  | cons e rest ih =>
    obtain ⟨path, c⟩ := e
    cases hcan : t.canWrite workingPlace path with
    | true =>
      rw [List.cons_append, writeAll_cons_of_canWrite hcan, writeAll_cons_of_canWrite hcan, ih]
    | false =>
      rw [List.cons_append, writeAll_cons_of_not_canWrite hcan,
        writeAll_cons_of_not_canWrite hcan, ih]

/-- What every write keeps, all of them keep. -/
theorem writeAll_invariant {P : Tree → Prop} (h : P t)
    (hput : ∀ t', t.SameDirectories t' → P t' → ∀ e ∈ ws, t.canWrite workingPlace e.1 = true →
      P (t'.put (placeOf workingPlace e.1) (.file e.2))) :
    P (t.writeAll workingPlace ws) := by
  induction ws generalizing t with
  | nil => exact h
  | cons e rest ih =>
    obtain ⟨path, c⟩ := e
    cases hcan : t.canWrite workingPlace path with
    | true =>
      have hdirs := sameDirectories_put (get?_ne_directory_of_canWrite hcan) c
      have hfirst := hput t (fun _ => Iff.rfl) h (path, c) List.mem_cons_self hcan
      rw [writeAll_cons_of_canWrite hcan]
      refine ih hfirst ?_
      intro t' hdirs' ht' e he hcan'
      rw [canWrite_congr hdirs] at hcan'
      exact hput t' (fun r => (hdirs r).trans (hdirs' r)) ht' e (List.mem_cons_of_mem _ he) hcan'
    | false =>
      rw [writeAll_cons_of_not_canWrite hcan]
      exact ih h fun t' hdirs ht' e he => hput t' hdirs ht' e (List.mem_cons_of_mem _ he)

theorem sameDirectories_writeAll (t : Tree) (workingPlace : Place) (ws : List (Path × Bytes)) :
    t.SameDirectories (t.writeAll workingPlace ws) := by
  refine writeAll_invariant (P := t.SameDirectories) (fun _ => Iff.rfl) ?_
  intro t' hdirs _ e _ hcan
  rw [← canWrite_congr hdirs] at hcan
  have hput := sameDirectories_put (get?_ne_directory_of_canWrite hcan) e.2
  exact fun r => (hdirs r).trans (hput r)

theorem get?_writeAll_of_ne
    (h : ∀ e ∈ ws, t.canWrite workingPlace e.1 = true → q ≠ placeOf workingPlace e.1) :
    (t.writeAll workingPlace ws).get? q = t.get? q := by
  refine writeAll_invariant (P := fun t' => t'.get? q = t.get? q) rfl ?_
  intro t' _ hget e he hcan
  rw [get?_put_of_ne (h e he hcan), hget]

/-- What was written at one of several different places is there in the end, if it can be. -/
theorem get?_writeAll_of_mem
    (hd : ws.Pairwise fun e e' => placeOf workingPlace e.1 ≠ placeOf workingPlace e'.1)
    {e : Path × Bytes} (he : e ∈ ws) (hcan : t.canWrite workingPlace e.1 = true) :
    (t.writeAll workingPlace ws).get? (placeOf workingPlace e.1) = some (.file e.2) := by
  induction ws generalizing t with
  | nil => cases he
  | cons e' rest ih =>
    obtain ⟨hne, hrest⟩ := List.pairwise_cons.1 hd
    rcases List.mem_cons.1 he with rfl | hmem
    · rw [writeAll_cons_of_canWrite hcan, get?_writeAll_of_ne fun e' he' _ => hne e' he',
        get?_put (placeOf_ne_nil_of_canWrite hcan)]
    · obtain ⟨path, c⟩ := e'
      cases hcan' : t.canWrite workingPlace path with
      | true =>
        rw [writeAll_cons_of_canWrite hcan']
        refine ih hrest hmem ?_
        rwa [canWrite_congr (sameDirectories_put (get?_ne_directory_of_canWrite hcan') c)]
      | false =>
        rw [writeAll_cons_of_not_canWrite hcan']
        exact ih hrest hmem hcan

/-- What is written to a file depends on nothing but the directories. -/
theorem get?_writeAll_congr {t' : Tree} (hdirs : t.SameDirectories t')
    (h : t'.get? q = t.get? q) (workingPlace : Place) (ws : List (Path × Bytes)) :
    (t'.writeAll workingPlace ws).get? q = (t.writeAll workingPlace ws).get? q := by
  induction ws generalizing t t' with
  | nil => exact h
  | cons e rest ih =>
    obtain ⟨path, c⟩ := e
    have hcan' := canWrite_congr hdirs workingPlace path
    cases hcan : t.canWrite workingPlace path with
    | true =>
      rw [hcan] at hcan'
      rw [writeAll_cons_of_canWrite hcan, writeAll_cons_of_canWrite hcan']
      have hput := sameDirectories_put (get?_ne_directory_of_canWrite hcan) c
      have hput' := sameDirectories_put (get?_ne_directory_of_canWrite hcan') c
      refine ih (fun r => (hput.symm r).trans ((hdirs r).trans (hput' r))) ?_
      by_cases hq : q = placeOf workingPlace path
      · rw [hq, get?_put (placeOf_ne_nil_of_canWrite hcan),
          get?_put (placeOf_ne_nil_of_canWrite hcan')]
      · rw [get?_put_of_ne hq, get?_put_of_ne hq, h]
    | false =>
      rw [hcan] at hcan'
      rw [writeAll_cons_of_not_canWrite hcan, writeAll_cons_of_not_canWrite hcan']
      exact ih hdirs h

theorem get?_writeAll_cases (t : Tree) (workingPlace : Place) (ws : List (Path × Bytes))
    (q : Place) : (t.writeAll workingPlace ws).get? q = t.get? q ∨ ∃ e ∈ ws,
      q = placeOf workingPlace e.1 ∧ t.get? q ≠ some .directory ∧
        (t.writeAll workingPlace ws).get? q = some (.file e.2) := by
  refine writeAll_invariant (P := fun t' => t'.get? q = t.get? q ∨ ∃ e ∈ ws,
    q = placeOf workingPlace e.1 ∧ t.get? q ≠ some .directory ∧
      t'.get? q = some (.file e.2)) (.inl rfl) ?_
  intro t' _ hget e he hcan
  by_cases hq : q = placeOf workingPlace e.1
  · subst hq
    exact .inr ⟨e, he, rfl, get?_ne_directory_of_canWrite hcan,
      get?_put (placeOf_ne_nil_of_canWrite hcan)⟩
  · rwa [get?_put_of_ne hq]

theorem IsStill.put (h : t.IsStill) (hq : q ≠ []) (c : Bytes) : (t.put q (.file c)).IsStill := by
  intro r first later
  by_cases hr : r = q
  · subst hr
    rw [get?_put hq]
    simp
  · rw [get?_put_of_ne hr]
    exact h r first later

theorem IsStill.writeAll (h : t.IsStill) (workingPlace : Place) (ws : List (Path × Bytes)) :
    (t.writeAll workingPlace ws).IsStill :=
  writeAll_invariant h fun _ _ ht' e _ hcan => ht'.put (placeOf_ne_nil_of_canWrite hcan) e.2

theorem content_writeAll (h : t.IsStill) {path : Path} (hslash : path.endsInSlash = false)
    (hne : ∀ e ∈ ws, placeOf workingPlace path ≠ placeOf workingPlace e.1) {c : Bytes} :
    (t.writeAll workingPlace ws).content workingPlace path = .ok c ↔
      t.content workingPlace path = .ok c := by
  have hsame := sameDirectories_writeAll t workingPlace ws
  have hget := get?_writeAll_of_ne (t := t) fun e he _ => hne e he
  rw [content_eq_ok_iff h, content_eq_ok_iff (h.writeAll workingPlace ws)]
  constructor
  · rintro ⟨q, hresolve⟩
    obtain ⟨rfl, hnode⟩ := resolve_eq_ok hresolve
    rw [hget] at hnode
    exact ⟨_, hnode ▸ resolve_of_sameDirectories hsame.symm hslash hresolve⟩
  · rintro ⟨q, hresolve⟩
    obtain ⟨rfl, hnode⟩ := resolve_eq_ok hresolve
    rw [← hget] at hnode
    exact ⟨_, hnode ▸ resolve_of_sameDirectories hsame hslash hresolve⟩

end WriteAll

end Files.Tree

/-! ## Worlds -/

/-- Which files cannot be written, and why. -/
abbrev Files.Refusals := Path → Option Files.Fault

namespace World

/-- A host where some files cannot be written, even though they may be read. -/
abbrev refusing (refused : Files.Refusals) : Host (StateM World) where
  readFile := Host.readFile
  writeFile path content w :=
    match refused path with
    | some fault => (.error fault, w)
    | none => (Host.writeFile path content : StateM World _) w
  createDirectories := Host.createDirectories
  listDirectory := Host.listDirectory
  isDirectory := Host.isDirectory
  isFile := Host.isFile
  report := Host.report

theorem writeFile_refusing_of_some {refused : Files.Refusals} {path : Path}
    {fault : Files.Fault} (h : refused path = some fault) (c : Bytes) (w : World) :
    (refusing refused).writeFile path c w = (.error fault, w) := by
  unfold refusing
  simp only [h]

theorem writeFile_refusing_of_none {refused : Files.Refusals} {path : Path}
    (h : refused path = none) (c : Bytes) (w : World) :
    (refusing refused).writeFile path c w = (Host.writeFile path c : StateM World _) w := by
  unfold refusing
  simp only [h]

def runRefusing {α : Type} (w : World) (refused : Files.Refusals)
    (t : [Host (StateM World)] → Task (StateM World) α) : Except Failure α × World :=
  w.run (@t (refusing refused))

/-- If no file is refused, a program runs as it always does. -/
theorem runRefusing_none {α : Type} (w : World)
    (t : [Host (StateM World)] → Task (StateM World) α) :
    w.runRefusing (fun _ => none) t = w.run t := by
  have hhost : refusing (fun _ => none) = inferInstanceAs (Host (StateM World)) := rfl
  unfold runRefusing
  rw [hhost]

theorem runRefusing_orReport {α : Type} {w : World} {refused : Files.Refusals}
    {t : [Host (StateM World)] → Task (StateM World) α} :
    w.runRefusing refused (Task.orReport t) =
      match w.runRefusing refused t with
      | (.ok a, w₁) => (.ok (some a), w₁)
      | (.error e, w₁) => (.ok none, { w₁ with events := .failed e :: w₁.events }) :=
  run_orReport

/-- Nothing changes by itself, neither when a file is read nor when one is written. -/
structure IsQuiet (w : World) : Prop where
  silent : w.behaviour = .silent
  isStill : w.tree.IsStill

/-- Files were written, those that can be, and nothing else has changed. -/
structure Tries (refused : Files.Refusals) (ws : List (Path × Bytes))
    (w w' : World) : Prop extends SamePlaces w w' where
  tree : w'.tree = w.tree.writeAll w.workingPlace (ws.filter fun e => (refused e.1).isNone)

section Tries

variable {refused : Files.Refusals} {w w₁ w₂ : World} {ws ws' : List (Path × Bytes)}

theorem Tries.refl (w : World) : Tries refused [] w w := ⟨.refl w, rfl⟩

theorem exists_tries (refused : Files.Refusals) (ws : List (Path × Bytes)) (w : World) :
    ∃ w', Tries refused ws w w' :=
  ⟨{ w with tree := w.tree.writeAll w.workingPlace (ws.filter fun e => (refused e.1).isNone) },
    ⟨rfl, rfl, rfl⟩, rfl⟩

theorem Tries.isStill (hw : Tries refused ws w w₁) (h : w.tree.IsStill) : w₁.tree.IsStill := by
  rw [hw.tree]
  exact h.writeAll w.workingPlace _

theorem Tries.trans (h : Tries refused ws w w₁) (h' : Tries refused ws' w₁ w₂) :
    Tries refused (ws ++ ws') w w₂ where
  toSamePlaces := h.toSamePlaces.trans h'.toSamePlaces
  tree := by rw [h'.tree, h.tree, h.workingPlace, List.filter_append, Tree.writeAll_append]

theorem Tries.sameFrame (h : Tries refused ws w w₁) (hw : w.tree.IsStill) : w.SameFrame w₁ where
  toSamePlaces := h.toSamePlaces
  isStill := h.isStill hw
  sameDirectories := by
    rw [h.tree]
    exact Tree.sameDirectories_writeAll _ _ _

theorem Tries.report (h : Tries refused ws w w₁) (e : Event) :
    Tries refused ws w { w₁ with events := e :: w₁.events } :=
  ⟨⟨h.workingPlace, h.kernelPlace, h.behaviour⟩, h.tree⟩

theorem Rests.tries (h : w.Rests w₁) (hw : w.tree.IsStill) : Tries refused [] w w₁ :=
  ⟨h.toSamePlaces, h.tree hw⟩

def canWrite (w : World) (refused : Files.Refusals) (path : Path) : Bool :=
  (refused path).isNone && w.tree.canWrite w.workingPlace path

theorem canWrite_congr (h : w.SamePlaces w₁) (hdirs : w.tree.SameDirectories w₁.tree)
    (path : Path) : w₁.canWrite refused path = w.canWrite refused path := by
  unfold World.canWrite
  rw [h.workingPlace, Tree.canWrite_congr hdirs]

theorem Tries.canWrite (h : Tries refused ws w w₁) (path : Path) :
    w₁.canWrite refused path = w.canWrite refused path := by
  refine canWrite_congr h.toSamePlaces ?_ path
  rw [h.tree]
  exact Tree.sameDirectories_writeAll _ _ _

theorem Tries.get?_of_mem (h : Tries refused ws w w₁)
    (hd : ws.Pairwise fun e e' =>
      Tree.placeOf w.workingPlace e.1 ≠ Tree.placeOf w.workingPlace e'.1)
    {e : Path × Bytes} (he : e ∈ ws) (hcan : w.canWrite refused e.1 = true) :
    w₁.tree.get? (Tree.placeOf w.workingPlace e.1) = some (.file e.2) := by
  obtain ⟨hgranted, hcan⟩ := Bool.and_eq_true_iff.1 hcan
  rw [h.tree]
  exact Tree.get?_writeAll_of_mem (hd.filter _) (List.mem_filter.2 ⟨he, hgranted⟩) hcan

theorem Tries.get?_of_ne (h : Tries refused ws w w₁) {q : Place}
    (hne : ∀ e ∈ ws, w.canWrite refused e.1 = true → q ≠ Tree.placeOf w.workingPlace e.1) :
    w₁.tree.get? q = w.tree.get? q := by
  rw [h.tree]
  refine Tree.get?_writeAll_of_ne fun e he hcan => ?_
  obtain ⟨he, hgranted⟩ := List.mem_filter.1 he
  exact hne e he (Bool.and_eq_true_iff.2 ⟨hgranted, hcan⟩)

theorem Tries.content (h : Tries refused ws w w₁) (hw : w.tree.IsStill) {path : Path}
    (hslash : path.endsInSlash = false)
    (hne : ∀ e ∈ ws, Tree.placeOf w.workingPlace path ≠ Tree.placeOf w.workingPlace e.1)
    {c : Bytes} : w₁.tree.content w₁.workingPlace path = .ok c ↔
      w.tree.content w.workingPlace path = .ok c := by
  rw [h.tree, h.workingPlace]
  exact Tree.content_writeAll hw hslash fun e he => hne e (List.mem_filter.1 he).1

theorem tries_of_canWrite {path : Path} (h : w.canWrite refused path = true) (c : Bytes) :
    Tries refused [(path, c)] w (w.putFile (Tree.placeOf w.workingPlace path) c) := by
  obtain ⟨hgranted, hcan⟩ := Bool.and_eq_true_iff.1 h
  refine ⟨⟨rfl, rfl, rfl⟩, ?_⟩
  rw [List.filter_cons_of_pos (by simp [hgranted])]
  exact (Tree.writeAll_cons_of_canWrite hcan c []).symm

theorem tries_of_not_canWrite {path : Path} (h : w.canWrite refused path = false) (c : Bytes) :
    Tries refused [(path, c)] w w := by
  refine ⟨.refl w, ?_⟩
  cases hgranted : (refused path).isNone with
  | false =>
    rw [List.filter_cons_of_neg (by simp [hgranted])]
    rfl
  | true =>
    rw [canWrite, hgranted, Bool.true_and] at h
    rw [List.filter_cons_of_pos (by simp [hgranted])]
    exact (Tree.writeAll_cons_of_not_canWrite h c []).symm

end Tries

/-! ## Single writes -/

section Write

variable {refused : Files.Refusals} {w w₁ : World} {path : Path} {q : Place}

/-- A file that can be written is written, and then the kernel reacts. -/
theorem run_writeBytes_of_canWrite (h : w.canWrite refused path = true) (c : Bytes) :
    w.runRefusing refused (Task.writeBytes path c) =
      (.ok (), (w.putFile (Tree.placeOf w.workingPlace path) c).react
        (Tree.placeOf w.workingPlace path) c) := by
  obtain ⟨hgranted, hcan⟩ := Bool.and_eq_true_iff.1 h
  unfold runRefusing Task.writeBytes
  rw [run_access, writeFile_refusing_of_none (Option.isNone_iff_eq_none.1 hgranted), writeFile_eq,
    Tree.write_of_canWrite hcan]
  rfl

theorem run_writeBytes_of_not_canWrite (h : w.canWrite refused path = false) (c : Bytes) :
    ∃ fault, w.runRefusing refused (Task.writeBytes path c) =
      (.error (.file .writing path fault), w) := by
  unfold runRefusing Task.writeBytes
  rw [run_access]
  cases hrefused : refused path with
  | some fault => exact ⟨fault, by rw [writeFile_refusing_of_some hrefused]⟩
  | none =>
    rw [canWrite, hrefused, Option.isNone_none, Bool.true_and] at h
    obtain ⟨fault, hwrite⟩ := Tree.write_of_not_canWrite h c
    exact ⟨fault, by rw [writeFile_refusing_of_none hrefused, writeFile_eq, hwrite]⟩

/-- Nothing happens when a file is written at this place. -/
def Ignores (w : World) (q : Place) : Prop :=
  w.behaviour = .silent ∨ w.behaviour = .loading ∧ q ≠ w.fileOf Protection.name Kernel.loadFile

theorem Ignores.react (h : w.Ignores q) (c : Bytes) : w.react q c = w := by
  rcases h with hsilent | ⟨hloading, hne⟩
  · unfold World.react
    rw [hsilent]
  · exact react_of_ne hloading c hne

theorem Ignores.same (h : w.Ignores q) (hw : w.SamePlaces w₁) : w₁.Ignores q := by
  unfold Ignores
  rwa [hw.behaviour, hw.fileOf]

/-- A write to a file where nothing happens then. -/
theorem Ignores.run_writeBytes (h : w.Ignores (Tree.placeOf w.workingPlace path))
    (refused : Files.Refusals) (c : Bytes) :
    ∃ r w', w.runRefusing refused (Task.writeBytes path c) = (r, w') ∧
      Tries refused [(path, c)] w w' ∧ (w.canWrite refused path = true → r = .ok ()) ∧
      (w.canWrite refused path = false → ∃ fault, r = .error (.file .writing path fault)) := by
  cases hcan : w.canWrite refused path with
  | true =>
    have hput : (w.putFile (Tree.placeOf w.workingPlace path) c).Ignores
        (Tree.placeOf w.workingPlace path) := h.same ⟨rfl, rfl, rfl⟩
    have hrun := run_writeBytes_of_canWrite hcan c
    rw [hput.react] at hrun
    exact ⟨_, _, hrun, tries_of_canWrite hcan c, fun _ => rfl, fun h => nomatch h⟩
  | false =>
    obtain ⟨fault, hrun⟩ := run_writeBytes_of_not_canWrite hcan c
    exact ⟨_, _, hrun, tries_of_not_canWrite hcan c, fun h => (nomatch h), fun _ => ⟨fault, rfl⟩⟩

end Write

/-! ## What the kernel does -/

section React

variable {w : World} {c : Bytes} {q : Place}

theorem sameFrame_putFile (hstill : w.tree.IsStill) (hq : w.tree.get? q ≠ some .directory)
    (c : Bytes) : w.SameFrame (w.putFile q c) :=
  ⟨⟨rfl, rfl, rfl⟩, hstill.put (Tree.ne_nil_of_get?_ne hq) c, Tree.sameDirectories_put hq c⟩

theorem refills_putFile {e : String × String} (he : e ∈ loadedFiles) (hstill : w.tree.IsStill)
    (hq : w.tree.get? (w.fileOf e.1 e.2) ≠ some .directory) (c : Bytes) :
    w.Refills (w.putFile (w.fileOf e.1 e.2) c) :=
  ⟨sameFrame_putFile hstill hq c, fun _ hne => Tree.get?_put_of_ne (hne e he)⟩

/-- At most, the kernel gives account of another policy. -/
theorem refills_react (hw : w.behaviour = .loading) (hstill : w.tree.IsStill)
    (haccount : w.HasAccountFiles) (q : Place) (blob : Bytes) : w.Refills (w.react q blob) := by
  rcases react_cases hw q blob with hsame | ⟨d, -, -, hadopt⟩
  · rw [hsame]
    exact ⟨.refl hstill, fun _ _ => rfl⟩
  · rw [hadopt]
    have hdump : w.Refills (w.putFile (w.fileOf Protection.name Kernel.dumpFile) blob) :=
      refills_putFile (e := (Protection.name, Kernel.dumpFile)) (by decide) hstill
        (haccount _ (by decide)) _
    exact hdump.trans (refills_putFile (e := (Protection.name, Kernel.digestFile)) (by decide)
      hdump.isStill (hdump.hasAccountFiles haccount _ (by decide)) _)

theorem get?_react (hw : w.behaviour = .loading) {r : Place}
    (hr : ∀ file ∈ account, r ≠ w.fileOf Protection.name file) (q : Place) (blob : Bytes) :
    (w.react q blob).tree.get? r = w.tree.get? r := by
  rcases react_cases hw q blob with hsame | ⟨d, -, -, hadopt⟩
  · rw [hsame]
  · rw [hadopt]
    exact (Tree.get?_put_of_ne (hr _ (by decide))).trans (Tree.get?_put_of_ne (hr _ (by decide)))

end React

/-- A program comes to an end, and what it does is to write these files, those that can be written,
as long as nothing happens then. -/
def Does (refused : Files.Refusals)
    (t : [Host (StateM World)] → Task (StateM World) Unit) (ws : List (Path × Bytes)) : Prop :=
  ∀ w : World, (∀ e ∈ ws, w.Ignores (Tree.placeOf w.workingPlace e.1)) →
    ∃ w', w.runRefusing refused t = (.ok (), w') ∧ Tries refused ws w w'

namespace Does

variable {refused : Files.Refusals} {ws ws' : List (Path × Bytes)}
  {t : [Host (StateM World)] → Task (StateM World) Unit}

protected theorem pure : Does refused (pure ()) [] := fun w _ => ⟨w, rfl, .refl w⟩

protected theorem bind {f : [Host (StateM World)] → Unit → Task (StateM World) Unit}
    (ht : Does refused t ws) (hf : ∀ u, Does refused (f u) ws') :
    Does refused (t >>= f) (ws ++ ws') := by
  intro w hw
  obtain ⟨w₁, hrun, htries⟩ := ht w fun e he => hw e (List.mem_append_left _ he)
  obtain ⟨w₂, hrun', htries'⟩ := hf () w₁ fun e he => by
    rw [htries.workingPlace]
    exact (hw e (List.mem_append_right _ he)).same htries.toSamePlaces
  exact ⟨w₂, (run_bind_of_ok hrun).trans hrun', htries.trans htries'⟩

theorem forM {α : Type} {f : [Host (StateM World)] → α → Task (StateM World) Unit}
    {written : α → List (Path × Bytes)} (hf : ∀ a, Does refused (f a) (written a)) (as : List α) :
    Does refused (as.forM f) (as.flatMap written) := by
  induction as with
  | nil => exact .pure
  | cons a rest ih => exact (hf a).bind fun _ => ih

end Does

end World

end PathPolicy
