import PathPolicy.Proofs.Writing

/-!
# Trees that are the same elsewhere

Two trees that are the same but for what is at a place and below it (`Tree.SameBut`) cannot be told
apart by paths that do not pass the place. They stay so whatever is made or written elsewhere. A
tree with one more file (`Tree.Adds`) can be told from the one before by paths that lead to the
file; all other paths lead where they led before, or cannot be followed any more.
-/

namespace PathPolicy.Files

/-! ## Names -/

namespace Path

theorem splitSlashes_of_notMem {cs : List Char} (h : '/' ∉ cs) : splitSlashes cs = [cs] := by
  induction cs with
  | nil => rfl
  | cons c rest ih =>
    simp only [List.mem_cons, not_or] at h
    rw [splitSlashes, if_neg (Ne.symm h.1), ih h.2]

theorem slash_notMem_of_mem_splitSlashes {cs part : List Char} (h : part ∈ splitSlashes cs) :
    '/' ∉ part := by
  induction cs generalizing part with
  | nil =>
    rw [List.mem_singleton.1 h]
    exact List.not_mem_nil
  | cons c rest ih =>
    unfold splitSlashes at h
    split at h
    · rcases List.mem_cons.1 h with rfl | h
      · exact List.not_mem_nil
      · exact ih h
    · rename_i hc
      cases hrest : splitSlashes rest with
      | nil => exact absurd hrest (splitSlashes_ne_nil rest)
      | cons first more =>
        rw [hrest] at h ih
        rcases List.mem_cons.1 h with rfl | h
        · exact List.not_mem_cons_of_ne_of_not_mem (Ne.symm hc) (ih List.mem_cons_self)
        · exact ih (List.mem_cons_of_mem _ h)

theorem isName_of_mem_steps {path : Path} {step : String} (h : step ∈ steps path)
    (hstay : step ≠ ".") (habove : step ≠ "..") : IsName step := by
  obtain ⟨hmem, hne⟩ := List.mem_filter.1 h
  obtain ⟨part, hpart, rfl⟩ := List.mem_map.1 hmem
  have hslash := slash_notMem_of_mem_splitSlashes hpart
  refine ⟨?_, fun hhead => hslash ?_, hstay, habove⟩
  · unfold steps
    rw [String.toList_ofList, splitSlashes_of_notMem hslash]
    exact List.filter_cons_of_pos hne
  · rw [String.toList_ofList] at hhead
    exact List.mem_of_head? hhead

theorem exists_steps_concat {path : Path} {c : Char} (h : path.toList.getLast? = some c)
    (hc : c ≠ '/') :
    ∃ front last, steps path = front ++ [last] ∧ last.toList.getLast? = some c := by
  have hparts : ∀ cs : List Char, cs.getLast? = some c →
      ∃ front part, splitSlashes cs = front ++ [part] ∧ part.getLast? = some c := by
    intro cs hcs
    obtain ⟨back, rfl⟩ := List.getLast?_eq_some_iff.1 hcs
    clear hcs h
    induction back with
    | nil => exact ⟨[], [c], by simp [splitSlashes, hc], rfl⟩
    | cons d rest ih =>
      obtain ⟨front, part, hsplit, hlast⟩ := ih
      rw [List.cons_append, splitSlashes, hsplit]
      split
      · exact ⟨[] :: front, part, rfl, hlast⟩
      · cases front with
        | nil => exact ⟨[], d :: part, rfl, by rw [List.getLast?_cons, hlast]; rfl⟩
        | cons first more => exact ⟨(d :: first) :: more, part, rfl, hlast⟩
  obtain ⟨front, part, hsplit, hlast⟩ := hparts _ h
  have hne : String.ofList part ≠ "" := by
    intro hempty
    have hnil : part = [] := by simpa using congrArg String.toList hempty
    rw [hnil] at hlast
    cases hlast
  refine ⟨(front.map String.ofList).filter fun step => step ≠ "", String.ofList part, ?_, by
    rwa [String.toList_ofList]⟩
  unfold steps
  rw [hsplit, List.map_append, List.filter_append, List.map_singleton,
    List.filter_cons, if_pos (decide_eq_true hne), List.filter_nil]

theorem getLast?_join (directory : Path) {name : String} {c : Char}
    (h : name.toList.getLast? = some c) : (join directory name).toList.getLast? = some c := by
  unfold join
  split
  · exact h
  · split <;> simp [List.getLast?_cons, List.getLast?_append, h]

theorem getLast?_of_hasConfExtension {name : String} (h : hasConfExtension name = true) :
    name.toList.getLast? = some 'f' := by
  unfold hasConfExtension at h
  have hfront := (of_decide_eq_true h).1
  rw [List.getLast?_eq_head?_reverse]
  cases hback : name.toList.reverse with
  | nil =>
    rw [hback] at hfront
    cases hfront
  | cons c rest =>
    rw [hback, List.takeWhile_cons] at hfront
    split at hfront
    · exact congrArg some (List.cons.inj hfront).1
    · cases hfront

end Path

namespace Tree

variable {t t' : Tree} {p q : Place} {n : Node}

theorem getLast?_placeOf {path : Path} {c : Char} (h : path.toList.getLast? = some c)
    (hslash : c ≠ '/') (hdot : c ≠ '.') (workingPlace : Place) :
    ∃ name, (placeOf workingPlace path).getLast? = some name ∧ name.toList.getLast? = some c := by
  obtain ⟨front, last, hsteps, hlast⟩ := Path.exists_steps_concat h hslash
  have hne : ∀ special : String, special.toList.getLast? = some '.' → last ≠ special := by
    rintro special hspecial rfl
    exact hdot (Option.some.inj (hlast.symm.trans hspecial))
  refine ⟨last, ?_, hlast⟩
  unfold placeOf
  rw [hsteps, leadsTo_append, leadsTo, if_neg (hne "." rfl), if_neg (hne ".." rfl), leadsTo]
  exact List.getLast?_concat ..

/-- Steps lead to names of the place where they start, and to names among them. -/
theorem mem_of_mem_leadsTo {steps : List String} {name : String} (h : name ∈ leadsTo p steps) :
    name ∈ p ∨ name ∈ steps ∧ name ≠ "." ∧ name ≠ ".." := by
  induction steps generalizing p with
  | nil => exact .inl h
  | cons step rest ih =>
    unfold leadsTo at h
    split at h
    · exact (ih h).imp_right (.imp_left (List.mem_cons_of_mem step))
    · rename_i hstay
      split at h
      · exact (ih h).imp (fun h => (List.dropLast_subset p) h)
          (.imp_left (List.mem_cons_of_mem step))
      · rename_i habove
        rcases ih h with hmem | hmem
        · rcases List.mem_append.1 hmem with hmem | hmem
          · exact .inl hmem
          · rw [List.mem_singleton.1 hmem]
            exact .inr ⟨List.mem_cons_self, hstay, habove⟩
        · exact .inr (hmem.imp_left (List.mem_cons_of_mem step))

section Names

variable {workingPlace : Place} (hnames : ∀ name ∈ workingPlace, Path.IsName name) (path : Path)

include hnames

theorem isName_of_mem_origin : ∀ name ∈ origin workingPlace path, Path.IsName name := by
  intro name hname
  unfold origin at hname
  split at hname
  · cases hname
  · exact hnames name hname

theorem isName_of_mem_placeOf : ∀ name ∈ placeOf workingPlace path, Path.IsName name := by
  intro name hname
  rcases mem_of_mem_leadsTo hname with hname | ⟨hname, hstay, habove⟩
  · exact isName_of_mem_origin hnames path name hname
  · exact Path.isName_of_mem_steps hname hstay habove

end Names

def IsNamed (t : Tree) : Prop := ∀ e ∈ t.entries, ∀ name ∈ e.1, Path.IsName name

instance (t : Tree) : Decidable t.IsNamed :=
  inferInstanceAs (Decidable (∀ e ∈ t.entries, ∀ name ∈ e.1, Path.IsName name))

theorem IsNamed.put (h : t.IsNamed) (hq : ∀ name ∈ q, Path.IsName name) (n : Node) :
    (t.put q n).IsNamed := by
  intro e he
  rcases List.mem_cons.1 he with rfl | he
  · exact hq
  · exact h e (List.mem_filter.1 he).1

theorem IsNamed.of_mem_children (h : t.IsNamed) {name : String} (hname : name ∈ t.children p) :
    Path.IsName name := by
  obtain ⟨e, he, hlast⟩ := List.mem_filterMap.1 hname
  dsimp only at hlast
  split at hlast
  · exact h e he name (List.mem_of_getLast? hlast)
  · cases hlast

theorem list_eq_ok {workingPlace : Place} {path : Path} {names : List String}
    (h : t.list workingPlace path = .ok names) :
    names = t.children (placeOf workingPlace path) := by
  unfold list at h
  cases hresolve : t.resolve workingPlace path with
  | error fault =>
    rw [hresolve] at h
    cases h
  | ok found =>
    obtain ⟨q, node⟩ := found
    obtain ⟨rfl, -⟩ := resolve_eq_ok hresolve
    rw [hresolve] at h
    cases node with
    | none => cases h
    | some n =>
      cases n with
      | directory => exact (Except.ok.inj h).symm
      | file c | changing first later => cases h

/-- What is listed depends on nothing but what the path leads to, and the names there. -/
theorem list_congr {workingPlace : Place} {path : Path}
    (hresolve : t'.resolve workingPlace path = t.resolve workingPlace path)
    (hchildren : t'.children (placeOf workingPlace path) =
      t.children (placeOf workingPlace path)) :
    t'.list workingPlace path = t.list workingPlace path := by
  unfold list
  rw [hresolve]
  cases hfound : t.resolve workingPlace path with
  | error fault => rfl
  | ok found =>
    obtain ⟨q, node⟩ := found
    obtain ⟨rfl, -⟩ := resolve_eq_ok hfound
    cases node with
    | none => rfl
    | some n =>
      cases n with
      | directory => exact congrArg Except.ok hchildren
      | file c | changing first later => rfl

/-! ## The same but for one place -/

theorem erase_keeps : (!p.isPrefixOf q) = true ↔ ¬ p <+: q := by
  rw [Bool.not_eq_true', ← Bool.not_eq_true, List.isPrefixOf_iff_prefix]

theorem get?_erase (h : ¬ p <+: q) : (t.erase p).get? q = t.get? q := by
  have hlookup : ∀ l : List (Place × Node),
      (l.filter fun e => !p.isPrefixOf e.1).lookup q = l.lookup q := by
    intro l
    induction l with
    | nil => rfl
    | cons e rest ih =>
      obtain ⟨r, m⟩ := e
      by_cases hr : p <+: r
      · have hne : (q == r) = false := by
          rw [beq_eq_false_iff_ne]
          rintro rfl
          exact h hr
        rw [List.filter_cons, if_neg (mt erase_keeps.1 (not_not_intro hr)), List.lookup_cons, hne,
          ih]
      · rw [List.filter_cons, if_pos (erase_keeps.2 hr), List.lookup_cons, List.lookup_cons, ih]
  unfold get? erase
  rw [hlookup]

theorem erase_put (h : ¬ p <+: q) : (t.put q n).erase p = (t.erase p).put q n := by
  unfold put erase
  dsimp only
  rw [List.filter_cons, if_pos (erase_keeps.2 h), List.filter_filter, List.filter_filter]
  simp only [Bool.and_comm]

theorem children_erase {d : Place} (hbelow : ¬ p <+: d) (habove : ¬ d <+: p) :
    (t.erase p).children d = t.children d := by
  -- What is at or below the place is not in the directory.
  have hnone : ∀ q : Place, p <+: q → (if q.dropLast = d then q.getLast? else none) = none := by
    intro q hp
    rw [ite_eq_right_iff]
    rintro rfl
    cases hlast : q.getLast? with
    | none => rfl
    | some name =>
      obtain ⟨front, rfl⟩ := List.getLast?_eq_some_iff.1 hlast
      rw [List.dropLast_concat] at hbelow habove
      rcases List.prefix_concat_iff.1 hp with rfl | hp
      · exact absurd (List.prefix_append _ _) habove
      · exact absurd hp hbelow
  unfold children erase
  dsimp only
  induction t.entries with
  | nil => rfl
  | cons e rest ih =>
    obtain ⟨q, m⟩ := e
    by_cases hp : p <+: q
    · rw [List.filter_cons, if_neg (mt erase_keeps.1 (not_not_intro hp)), ih,
        List.filterMap_cons, hnone q hp]
    · rw [List.filter_cons, if_pos (erase_keeps.2 hp), List.filterMap_cons, List.filterMap_cons, ih]

/-- What is read at a path, where no file changes by itself, leaves the tree as it is. -/
theorem read_eq {workingPlace : Place} {path : Path}
    (h : ∀ first later, t.get? (placeOf workingPlace path) ≠ some (.changing first later)) :
    t.read workingPlace path = (t.content workingPlace path).map fun c => (c, t) := by
  unfold content read
  cases hresolve : t.resolve workingPlace path with
  | error fault => rfl
  | ok found =>
    obtain ⟨q, node⟩ := found
    obtain ⟨rfl, hget⟩ := resolve_eq_ok hresolve
    cases node with
    | none => rfl
    | some n =>
      cases n with
      | directory | file c => rfl
      | changing first later => exact absurd hget.symm (h first later)

/-- Directories above the one that is meant are made if it cannot be made without them. -/
theorem makeDirectories_eq {r : Place} {steps : List String} (hne : steps ≠ []) :
    t.makeDirectories r steps =
      if (t.ensureDirectory r steps).1 = .error .notFound then
        if ((t.ensureDirectory r steps).2.makeDirectories r (Path.above steps)).1 = .ok () then
          ((t.ensureDirectory r steps).2.makeDirectories r (Path.above steps)).2.ensureDirectory r
            steps
        else (t.ensureDirectory r steps).2.makeDirectories r (Path.above steps)
      else t.ensureDirectory r steps := by
  rw [Tree.makeDirectories, if_neg hne]
  cases t.ensureDirectory r steps with
  | mk first t₁ =>
    by_cases hfirst : first = .error .notFound
    · subst hfirst
      rw [if_pos rfl]
      dsimp only
      cases t₁.makeDirectories r (Path.above steps) with
      | mk above t₂ =>
        cases above with
        | ok u => rfl
        | error fault => rfl
    · rw [if_neg hfirst]
      split
      · rename_i heq
        exact absurd (Prod.mk.inj heq).1 hfirst
      · rfl

/-- Two trees are the same but for what is at a place and below it. In the first one, no file
changes by itself. -/
structure SameBut (p : Place) (t t' : Tree) : Prop where
  erase : t'.erase p = t.erase p
  isNamed : t.IsNamed
  isStill : t.IsStill

namespace SameBut

variable (h : SameBut p t t')

include h

theorem get?_eq (hq : ¬ p <+: q) : t'.get? q = t.get? q := by
  rw [← get?_erase hq, h.erase, get?_erase hq]

theorem put (hq : ¬ p <+: q) (hnames : ∀ name ∈ q, Path.IsName name)
    (hn : ∀ first later, n ≠ .changing first later) : SameBut p (t.put q n) (t'.put q n) where
  erase := by rw [erase_put hq, erase_put hq, h.erase]
  isNamed := h.isNamed.put hnames n
  isStill := by
    intro r first later hget
    by_cases hr : r = q
    · subst hr
      have hne : r ≠ [] := by
        rintro rfl
        cases hget
      rw [get?_put hne] at hget
      exact hn first later (Option.some.inj hget)
    · rw [get?_put_of_ne hr] at hget
      exact h.isStill r first later hget

theorem follow_eq {r : Place} {steps : List String} (hsteps : ∀ q ∈ passed r steps, ¬ p <+: q) :
    t'.follow r steps = t.follow r steps :=
  follow_congr fun q hq => (h.get?_eq (hsteps q hq)).symm

section Paths

variable {workingPlace : Place} {path : Path}
  (hpath : ∀ q ∈ passed (origin workingPlace path) path.steps, ¬ p <+: q)

include hpath

theorem resolve_eq : t'.resolve workingPlace path = t.resolve workingPlace path :=
  resolve_congr fun q hq => (h.get?_eq (hpath q hq)).symm

theorem list_eq (hplace : ¬ placeOf workingPlace path <+: p) :
    t'.list workingPlace path = t.list workingPlace path := by
  have hbelow : ¬ p <+: placeOf workingPlace path := hpath _ (leadsTo_mem_passed _ _)
  refine list_congr (h.resolve_eq hpath) ?_
  rw [← children_erase hbelow hplace, h.erase, children_erase hbelow hplace]

end Paths

/-! ### Making directories -/

theorem ensureDirectory {r : Place} {steps : List String}
    (hnames : ∀ name ∈ r, Path.IsName name)
    (hsteps : ∀ step ∈ steps, step ≠ "." → step ≠ ".." → Path.IsName step)
    (hpassed : ∀ q ∈ passed r steps, ¬ p <+: q) :
    (t'.ensureDirectory r steps).1 = (t.ensureDirectory r steps).1 ∧
      SameBut p (t.ensureDirectory r steps).2 (t'.ensureDirectory r steps).2 := by
  unfold Tree.ensureDirectory makeDirectory enter
  rw [h.follow_eq hpassed]
  cases hfollow : t.follow r steps with
  | error fault => exact ⟨rfl, h⟩
  | ok found =>
    obtain ⟨q, node⟩ := found
    obtain ⟨rfl, -⟩ := follow_eq_ok hfollow
    cases node with
    | some n => exact ⟨rfl, h⟩
    | none =>
      refine ⟨rfl, h.put (hpassed _ (leadsTo_mem_passed r steps)) (fun name hname => ?_) nofun⟩
      rcases mem_of_mem_leadsTo hname with hname | ⟨hname, hstay, habove⟩
      · exact hnames name hname
      · exact hsteps name hname hstay habove

theorem makeDirectories {r : Place} {steps : List String}
    (hnames : ∀ name ∈ r, Path.IsName name)
    (hsteps : ∀ step ∈ steps, step ≠ "." → step ≠ ".." → Path.IsName step)
    (hpassed : ∀ q ∈ passed r steps, ¬ p <+: q) :
    (t'.makeDirectories r steps).1 = (t.makeDirectories r steps).1 ∧
      SameBut p (t.makeDirectories r steps).2 (t'.makeDirectories r steps).2 := by
  induction hlength : steps.length using Nat.strongRecOn generalizing t t' steps with
  | ind n ih =>
    by_cases hne : steps = []
    · subst hne
      rw [Tree.makeDirectories, Tree.makeDirectories, if_pos rfl, if_pos rfl]
      exact ⟨rfl, h⟩
    · obtain ⟨hfirst, hsame⟩ := h.ensureDirectory hnames hsteps hpassed
      obtain ⟨habove, hsame'⟩ := ih _ (hlength ▸ Path.length_above hne) hsame
        (fun step hstep => hsteps step ((Path.above_prefix steps).subset hstep))
        (fun q hq => hpassed q (passed_subset r (Path.above_prefix steps) hq)) rfl
      rw [makeDirectories_eq hne, makeDirectories_eq hne, hfirst, habove]
      split
      · split
        · exact hsame'.ensureDirectory hnames hsteps hpassed
        · exact ⟨habove, hsame'⟩
      · exact ⟨hfirst, hsame⟩

theorem createDirectories {workingPlace : Place} {path : Path}
    (hnames : ∀ name ∈ workingPlace, Path.IsName name)
    (hpath : ∀ q ∈ passed (origin workingPlace path) path.steps, ¬ p <+: q) :
    (t'.createDirectories workingPlace path).1 = (t.createDirectories workingPlace path).1 ∧
      SameBut p (t.createDirectories workingPlace path).2
        (t'.createDirectories workingPlace path).2 := by
  unfold Tree.createDirectories
  cases check path with
  | error fault => exact ⟨rfl, h⟩
  | ok u =>
    exact h.makeDirectories (isName_of_mem_origin hnames path)
      (fun _ => Path.isName_of_mem_steps) hpath

end SameBut

/-! ## One more file -/

/-- What is put at a place does not show where nobody looks at the place. -/
theorem filterMap_put {α : Type} {f : Place → Option α} (hf : f p = none) (n : Node) :
    (t.put p n).entries.filterMap (fun e => f e.1) = t.entries.filterMap fun e => f e.1 := by
  unfold put
  rw [List.filterMap_cons, hf]
  dsimp only
  induction t.entries with
  | nil => rfl
  | cons e rest ih =>
    obtain ⟨q, m⟩ := e
    by_cases hq : q = p
    · subst hq
      rw [List.filter_cons, if_neg (by simp), ih, List.filterMap_cons, hf]
    · rw [List.filter_cons, if_pos (decide_eq_true hq), List.filterMap_cons, List.filterMap_cons,
        ih]

/-- A directory has the names that it had, but for that of what is put somewhere. -/
theorem filter_children_put {d : Place} {keep : String → Bool}
    (hkeep : ∀ name ∈ p.getLast?, keep name = false) (n : Node) :
    ((t.put p n).children d).filter keep = (t.children d).filter keep := by
  unfold children
  rw [List.filter_filterMap, List.filter_filterMap]
  refine filterMap_put
    (f := fun q => (if q.dropLast = d then q.getLast? else none).filter keep) ?_ n
  split
  · cases hlast : p.getLast? with
    | none => rfl
    | some name => simp [Option.filter, hkeep name hlast]
  · rfl

theorem children_put {d : Place} (h : p.dropLast ≠ d) (n : Node) :
    (t.put p n).children d = t.children d :=
  filterMap_put (f := fun q => if q.dropLast = d then q.getLast? else none) (if_neg h) n

theorem children_writeAll {workingPlace d : Place} {ws : List (Path × Bytes)}
    (h : ∀ e ∈ ws, (placeOf workingPlace e.1).dropLast ≠ d) :
    (t.writeAll workingPlace ws).children d = t.children d := by
  refine writeAll_invariant (P := fun t' => t'.children d = t.children d) rfl ?_
  intro t' _ ht' e he _
  rw [children_put (h e he), ht']

section Adds

variable {c : Bytes} (hdir : t.get? p ≠ some .directory)

include hdir

theorem get?_put_file : (t.put p (.file c)).get? p = some (.file c) :=
  get?_put (ne_nil_of_get?_ne hdir)

/-- Steps that do not lead to the file lead where they led before, unless they pass it. -/
theorem follow_put_file {r : Place} {steps : List String} (hne : leadsTo r steps ≠ p) :
    (t.put p (.file c)).follow r steps = t.follow r steps ∨
      (t.put p (.file c)).follow r steps = .error .notDirectory := by
  induction steps generalizing r with
  | nil =>
    refine .inl ?_
    exact congrArg (fun node => Except.ok (r, node)) (get?_put_of_ne hne)
  | cons step rest ih =>
    rw [leadsTo_cons] at hne
    rw [follow_cons, follow_cons]
    by_cases hspecial : step = "." ∨ step = ".."
    · rw [if_pos hspecial, if_pos hspecial]
      exact ih hne
    rw [if_neg hspecial, if_neg hspecial]
    by_cases hnext : leadsTo r [step] = p
    · have hrest : rest ≠ [] := by
        rintro rfl
        exact hne hnext
      rw [hnext, get?_put_file hdir]
      cases isTooLong step with
      | true => exact .inl rfl
      | false => exact .inr (by simp [hrest])
    · rw [get?_put_of_ne hnext]
      split
      · exact .inl rfl
      split
      · exact ih hne
      · exact .inl rfl

variable {workingPlace : Place} {path : Path} (hne : placeOf workingPlace path ≠ p)

include hne

/-- A path that does not lead to the file leads where it led before, unless it passes the file. -/
theorem resolve_put_file :
    (t.put p (.file c)).resolve workingPlace path = t.resolve workingPlace path ∨
      (t.put p (.file c)).resolve workingPlace path = .error .notDirectory := by
  unfold resolve
  rcases follow_put_file (c := c) hdir hne with hsame | hfault
  · rw [hsame]
    exact .inl rfl
  · rw [hfault]
    cases check path with
    | error fault => exact .inl rfl
    | ok u =>
      cases path.isEmpty with
      | true => exact .inl rfl
      | false => exact .inr rfl

theorem content_put_file :
    (t.put p (.file c)).content workingPlace path = t.content workingPlace path ∨
      (t.put p (.file c)).content workingPlace path = .error .notDirectory := by
  rcases resolve_put_file (c := c) hdir hne with hsame | hfault
  · exact .inl (content_congr hsame)
  · refine .inr ?_
    unfold content read
    rw [hfault]
    rfl

theorem list_put_file {keep : String → Bool} (hkeep : ∀ name ∈ p.getLast?, keep name = false) :
    ((t.put p (.file c)).list workingPlace path).map (List.filter keep) =
        (t.list workingPlace path).map (List.filter keep) ∨
      (t.put p (.file c)).list workingPlace path = .error .notDirectory := by
  rcases resolve_put_file (c := c) hdir hne with hsame | hfault
  · refine .inl ?_
    unfold list
    rw [hsame]
    cases t.resolve workingPlace path with
    | error fault => rfl
    | ok found =>
      obtain ⟨q, node⟩ := found
      cases node with
      | none => rfl
      | some n =>
        cases n with
        | directory => exact congrArg Except.ok (filter_children_put hkeep _)
        | file c' | changing first later => rfl
  · refine .inr ?_
    unfold list
    rw [hfault]
    rfl

end Adds

end Tree

end PathPolicy.Files
