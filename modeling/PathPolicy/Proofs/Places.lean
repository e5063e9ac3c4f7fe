import PathPolicy.Files.Tree

/-!
# Paths and places

The place that a path leads to is fixed by its steps (`leadsTo`); what there is in the tree decides
only whether the steps can be followed. So a path below a directory leads to a place below the place
of the directory, and a file that is read or written is the one whose place the path names.
-/

namespace PathPolicy.Files

/-! ## The steps of a path -/

namespace Path

theorem splitSlashes_ne_nil (cs : List Char) : splitSlashes cs ≠ [] := by
  cases cs with
  | nil => simp [splitSlashes]
  | cons c rest =>
    unfold splitSlashes
    split
    · simp
    · split <;> simp

theorem splitSlashes_append (a b : List Char) :
    splitSlashes (a ++ '/' :: b) = splitSlashes a ++ splitSlashes b := by
  induction a with
  | nil => simp [splitSlashes]
  | cons c rest ih =>
    simp only [List.cons_append, splitSlashes, ih]
    split
    · simp
    · cases hrest : splitSlashes rest with
      | nil => exact absurd hrest (splitSlashes_ne_nil rest)
      | cons part more => simp

theorem steps_eq_of_toList {p q : Path} (cs : List Char)
    (hq : q.toList = p.toList ++ '/' :: cs) : steps q = steps p ++ steps (String.ofList cs) := by
  unfold steps
  rw [hq, splitSlashes_append, List.map_append, List.filter_append, String.toList_ofList]

theorem above_prefix (steps : List String) : above steps <+: steps := by
  have hstays : ∀ steps : List String, dropStays steps <+: steps := by
    intro steps
    unfold dropStays
    rw [← List.reverse_suffix, List.reverse_reverse]
    exact List.dropWhile_suffix _
  exact (hstays _).trans ((List.dropLast_prefix _).trans (hstays _))

/-- One name in a directory. -/
structure IsName (name : String) : Prop where
  steps : Path.steps name = [name]
  head : name.toList.head? ≠ some '/'
  ne_stay : name ≠ "."
  ne_above : name ≠ ".."

instance (name : String) : Decidable (IsName name) :=
  decidable_of_iff
    (Path.steps name = [name] ∧ name.toList.head? ≠ some '/' ∧ name ≠ "." ∧ name ≠ "..")
    ⟨fun ⟨steps, head, stay, above⟩ => ⟨steps, head, stay, above⟩,
      fun h => ⟨h.steps, h.head, h.ne_stay, h.ne_above⟩⟩

/-- A name that a file may have. -/
structure IsFileName (name : String) : Prop extends IsName name where
  ne_empty : name ≠ ""
  last : name.toList.getLast? ≠ some '/'
  zero : Char.ofNat 0 ∉ name.toList
  short : Tree.isTooLong name = false

instance (name : String) : Decidable (IsFileName name) :=
  decidable_of_iff
    (IsName name ∧ name ≠ "" ∧ name.toList.getLast? ≠ some '/' ∧ Char.ofNat 0 ∉ name.toList ∧
      Tree.isTooLong name = false)
    ⟨fun ⟨isName, empty, last, zero, short⟩ => ⟨isName, empty, last, zero, short⟩,
      fun h => ⟨h.toIsName, h.ne_empty, h.last, h.zero, h.short⟩⟩

section Join

variable (directory : Path) {name : String}

theorem exists_join : ∃ stem : String, ∀ name : String, name.toList.head? ≠ some '/' →
    join directory name = stem ++ name := by
  by_cases h : directory.isEmpty ∨ directory.toList.getLast? = some '/'
  · exact ⟨directory, fun name hname => by rw [join, if_neg hname, if_pos h]⟩
  · exact ⟨directory ++ "/", fun name hname => by rw [join, if_neg hname, if_neg h]⟩

/-- The steps of a path below a directory go on where those of the directory end. -/
theorem steps_join (hname : name.toList.head? ≠ some '/') :
    steps (join directory name) = steps directory ++ steps name := by
  have hofList : String.ofList name.toList = name := String.ofList_toList
  unfold join
  rw [if_neg hname]
  split
  case isTrue h =>
    rcases h with hempty | hlast
    · have hnil : directory = "" := by simpa using hempty
      subst hnil
      simp [steps, splitSlashes]
    · obtain ⟨front, hfront⟩ := List.getLast?_eq_some_iff.1 hlast
      have hdir : steps directory = steps (String.ofList front) := by
        rw [steps_eq_of_toList (p := String.ofList front) [] (by rw [hfront]; simp)]
        simp [steps, splitSlashes]
      rw [steps_eq_of_toList (p := String.ofList front) name.toList (by simp [hfront]),
        hdir, hofList]
  case isFalse h =>
    rw [steps_eq_of_toList (p := directory) name.toList (by simp), hofList]

theorem isAbsolute_join (hname : name.toList.head? ≠ some '/') :
    isAbsolute (join directory name) = isAbsolute directory := by
  unfold join
  rw [if_neg hname]
  cases hdir : directory.toList with
  | nil =>
    have hempty : directory = "" := String.toList_eq_nil_iff.1 hdir
    subst hempty
    simpa [isAbsolute] using hname
  | cons c rest => split <;> simp [isAbsolute, hdir]

theorem endsInSlash_join (hname : IsFileName name) : endsInSlash (join directory name) = false := by
  obtain ⟨stem, hjoin⟩ := exists_join directory
  have hne : name.toList ≠ [] := fun hnil => hname.ne_empty (String.toList_eq_nil_iff.1 hnil)
  have hlast := hname.last
  rw [List.getLast?_eq_some_getLast hne] at hlast
  rw [hjoin name hname.head, endsInSlash, String.toList_append, List.getLast?_append,
    List.getLast?_eq_some_getLast hne]
  simpa using hlast

end Join

end Path

/-! ## What there is at a place -/

namespace Tree

variable {t : Tree} {p q : Place} {n : Node}

theorem ne_nil_of_get?_ne (h : t.get? p ≠ some .directory) : p ≠ [] := by
  rintro rfl
  exact h rfl

theorem get?_put (hp : p ≠ []) : (t.put p n).get? p = some n := by
  simp [get?, put, hp]

theorem get?_put_of_ne (hq : q ≠ p) : (t.put p n).get? q = t.get? q := by
  have hne : (q == p) = false := by simpa using hq
  have hlookup : ∀ l : List (Place × Node), (l.filter fun e => e.1 ≠ p).lookup q = l.lookup q := by
    intro l
    induction l with
    | nil => rfl
    | cons e rest ih =>
      obtain ⟨r, m⟩ := e
      by_cases hr : r = p
      · subst hr
        rw [List.filter_cons_of_neg (by simp), List.lookup_cons, hne, ih]
      · rw [List.filter_cons_of_pos (by simpa using hr), List.lookup_cons, List.lookup_cons, ih]
  unfold get?
  split
  · rfl
  · show List.lookup q ((p, n) :: _) = _
    rw [List.lookup_cons, hne]
    exact hlookup t.entries

/-! ## The place of a path -/

/-- Where steps lead to from a place, if they can be followed. -/
def leadsTo (p : Place) : List String → Place
  | [] => p
  | step :: rest =>
    if step = "." then leadsTo p rest
    else if step = ".." then leadsTo p.dropLast rest
    else leadsTo (p ++ [step]) rest

theorem leadsTo_append (p : Place) (a b : List String) :
    leadsTo p (a ++ b) = leadsTo (leadsTo p a) b := by
  induction a generalizing p with
  | nil => rfl
  | cons step rest ih =>
    simp only [List.cons_append, leadsTo, ih]
    split
    · rfl
    · split <;> rfl

theorem leadsTo_name (p : Place) {name : String} (h : Path.IsName name) :
    leadsTo p [name] = p ++ [name] := by
  simp [leadsTo, h.ne_stay, h.ne_above]

theorem leadsTo_cons (p : Place) (step : String) (rest : List String) :
    leadsTo p (step :: rest) = leadsTo (leadsTo p [step]) rest :=
  leadsTo_append p [step] rest

/-- The first one of some steps: if it leads to a name, then either to a directory, or it is the last
one. -/
theorem follow_cons (t : Tree) (p : Place) (step : String) (rest : List String) :
    t.follow p (step :: rest) =
      if step = "." ∨ step = ".." then t.follow (leadsTo p [step]) rest
      else if isTooLong step then .error .nameTooLong
      else if rest = [] ∨ t.get? (leadsTo p [step]) = some .directory then
        t.follow (leadsTo p [step]) rest
      else .error (if (t.get? (leadsTo p [step])).isSome then .notDirectory else .notFound) := by
  rw [follow, leadsTo]
  by_cases hstay : step = "."
  · rw [if_pos hstay, if_pos (.inl hstay), if_pos hstay]
    rfl
  by_cases habove : step = ".."
  · rw [if_neg hstay, if_pos habove, if_pos (.inr habove), if_neg hstay, if_pos habove]
    rfl
  rw [if_neg hstay, if_neg habove, if_neg (not_or.2 ⟨hstay, habove⟩), if_neg hstay, if_neg habove,
    leadsTo]
  split
  · rfl
  dsimp only
  cases hget : t.get? (p ++ [step]) with
  | none => cases rest <;> simp [follow, hget]
  | some found => cases found <;> cases rest <;> simp [follow, hget]

/-- When steps can be followed. -/
theorem follow_cons_eq_ok {step : String} {rest : List String} {found : Place × Option Node} :
    t.follow p (step :: rest) = .ok found ↔
      ((step = "." ∨ step = "..") ∨ isTooLong step = false ∧
        (rest = [] ∨ t.get? (leadsTo p [step]) = some .directory)) ∧
      t.follow (leadsTo p [step]) rest = .ok found := by
  rw [follow_cons]
  by_cases hspecial : step = "." ∨ step = ".."
  · rw [if_pos hspecial]
    exact ⟨fun h => ⟨.inl hspecial, h⟩, And.right⟩
  rw [if_neg hspecial, or_iff_right hspecial]
  cases isTooLong step with
  | true => simp
  | false =>
    rw [if_neg Bool.false_ne_true]
    split
    · exact ⟨fun h => ⟨⟨rfl, ‹_›⟩, h⟩, And.right⟩
    · exact ⟨fun h => (nomatch h), fun h => absurd h.1.2 ‹_›⟩

/-- Steps that can be followed lead to their place, and find what is there. -/
theorem follow_eq_ok {steps : List String} {node : Option Node}
    (h : t.follow p steps = .ok (q, node)) : q = leadsTo p steps ∧ node = t.get? q := by
  induction steps generalizing p with
  | nil =>
    obtain ⟨rfl, rfl⟩ := Prod.mk.inj (Except.ok.inj h)
    exact ⟨rfl, rfl⟩
  | cons step rest ih =>
    rw [leadsTo_cons]
    exact ih (follow_cons_eq_ok.1 h).2

def placeOf (workingPlace : Place) (path : Path) : Place :=
  leadsTo (origin workingPlace path) path.steps

theorem placeOf_join (workingPlace : Place) (directory : Path) {name : String}
    (h : Path.IsName name) :
    placeOf workingPlace (directory.join name) = placeOf workingPlace directory ++ [name] := by
  unfold placeOf origin
  rw [Path.steps_join directory h.head, Path.isAbsolute_join directory h.head, leadsTo_append,
    h.steps, leadsTo_name _ h]

section Access

variable {workingPlace : Place} {path : Path}

theorem resolve_eq_ok_iff {node : Option Node} : t.resolve workingPlace path = .ok (q, node) ↔
    check path = .ok () ∧ path.isEmpty = false ∧
      t.follow (origin workingPlace path) path.steps = .ok (q, node) ∧
      (path.endsInSlash = true → node = none ∨ node = some .directory) := by
  unfold resolve
  cases check path with
  | error fault => simp [bind, Except.bind]
  | ok u =>
    cases path.isEmpty with
    | true => simp [bind, Except.bind, throw, throwThe, MonadExceptOf.throw]
    | false =>
      cases t.follow (origin workingPlace path) path.steps with
      | error fault => simp [bind, Except.bind]
      | ok found =>
        obtain ⟨p, n⟩ := found
        have hpair : (Except.ok (p, n) : Except Fault (Place × Option Node)) = .ok (q, node) ↔
            p = q ∧ n = node := by simp
        simp only [bind, Except.bind, Bool.false_eq_true, if_false, true_and, hpair]
        cases n with
        | none => exact hpair.trans ⟨fun h => ⟨h, fun _ => .inl h.2.symm⟩, And.left⟩
        | some n =>
          cases n with
          | directory => exact hpair.trans ⟨fun h => ⟨h, fun _ => .inr h.2.symm⟩, And.left⟩
          | file content | changing first later =>
            cases path.endsInSlash with
            | true =>
              refine ⟨fun h => (nomatch h), fun ⟨⟨_, hnode⟩, hslash⟩ => ?_⟩
              subst hnode
              rcases hslash rfl with h | h <;> cases h
            | false => exact hpair.trans ⟨fun h => ⟨h, fun h => nomatch h⟩, And.left⟩

theorem resolve_eq_ok {node : Option Node} (h : t.resolve workingPlace path = .ok (q, node)) :
    q = placeOf workingPlace path ∧ node = t.get? q :=
  follow_eq_ok (resolve_eq_ok_iff.1 h).2.2.1

theorem at?_eq_some_iff {n : Node} : t.at? workingPlace path = some n ↔
    t.resolve workingPlace path = .ok (placeOf workingPlace path, some n) := by
  unfold at?
  cases hresolve : t.resolve workingPlace path with
  | error fault => simp
  | ok found =>
    obtain ⟨p, node⟩ := found
    obtain ⟨rfl, -⟩ := resolve_eq_ok hresolve
    simp

/-- A file that is read is the one at the place of the path. Only one that changes is another file
after that. -/
theorem read_eq_ok {content : Bytes} {t' : Tree}
    (h : t.read workingPlace path = .ok (content, t')) :
    t.get? (placeOf workingPlace path) = some (.file content) ∧ t' = t ∨
      ∃ later, t.get? (placeOf workingPlace path) = some (.changing content later) ∧
        t' = t.put (placeOf workingPlace path) (.file later) := by
  unfold read at h
  cases hresolve : t.resolve workingPlace path with
  | error fault => simp [hresolve, bind, Except.bind] at h
  | ok found =>
    obtain ⟨p, node⟩ := found
    obtain ⟨rfl, rfl⟩ := resolve_eq_ok hresolve
    simp only [hresolve, bind, Except.bind] at h
    split at h
    · cases h
    · rename_i heq
      obtain ⟨-, hget⟩ := Prod.mk.inj heq
      obtain ⟨rfl, rfl⟩ := Prod.mk.inj (Except.ok.inj h)
      exact .inl ⟨hget, rfl⟩
    · rename_i heq
      obtain ⟨rfl, hget⟩ := Prod.mk.inj heq
      obtain ⟨rfl, rfl⟩ := Prod.mk.inj (Except.ok.inj h)
      exact .inr ⟨_, hget, rfl⟩
    · cases h

/-- A file is written at the place of the path, if that is not a directory. -/
theorem write_eq_ok_iff {content : Bytes} {t' : Tree} :
    t.write workingPlace path content = .ok (q, t') ↔ path.endsInSlash = false ∧
      (∃ node, t.resolve workingPlace path = .ok (q, node) ∧ node ≠ some .directory) ∧
        t' = t.put q (.file content) := by
  constructor
  · intro h
    unfold write at h
    cases hcheck : check path with
    | error fault => simp [hcheck, bind, Except.bind] at h
    | ok u =>
      simp only [hcheck, bind, Except.bind] at h
      split at h
      · split at h <;> cases h
      · rename_i hslash
        cases hresolve : t.resolve workingPlace path with
        | error fault => simp [hresolve] at h
        | ok found =>
          obtain ⟨p, node⟩ := found
          simp only [hresolve] at h
          split at h
          · cases h
          · rename_i hnode heq
            obtain ⟨rfl, rfl⟩ := Prod.mk.inj heq
            obtain ⟨rfl, rfl⟩ := Prod.mk.inj (Except.ok.inj h)
            exact ⟨by simpa using hslash, ⟨node, rfl, hnode⟩, rfl⟩
  · rintro ⟨hslash, ⟨node, hresolve, hnode⟩, rfl⟩
    have hcheck := (resolve_eq_ok_iff.1 hresolve).1
    unfold write
    simp only [hcheck, hslash, hresolve, bind, Except.bind]
    cases node with
    | none => rfl
    | some n =>
      cases n with
      | directory => exact absurd rfl hnode
      | file content' | changing first later => rfl

end Access

/-! ## What other trees have in common -/

def SameDirectories (t t' : Tree) : Prop :=
  ∀ q, t.get? q = some .directory ↔ t'.get? q = some .directory

theorem SameDirectories.symm {t t' : Tree} (h : t.SameDirectories t') : t'.SameDirectories t :=
  fun q => (h q).symm

/-- The places that steps come through, from the one that they start at to the one that they lead
to. -/
def passed (p : Place) : List String → List Place
  | [] => [p]
  | step :: rest => p :: passed (leadsTo p [step]) rest

theorem start_mem_passed (p : Place) (steps : List String) : p ∈ passed p steps := by
  cases steps <;> exact List.mem_cons_self

variable {t' : Tree}

theorem leadsTo_mem_passed (p : Place) (steps : List String) :
    leadsTo p steps ∈ passed p steps := by
  induction steps generalizing p with
  | nil => exact List.mem_cons_self
  | cons step rest ih =>
    rw [leadsTo_cons]
    exact List.mem_cons_of_mem p (ih _)

theorem mem_passed_append {a b : List String} (h : q ∈ passed p (a ++ b)) :
    q ∈ passed p a ∨ q ∈ passed (leadsTo p a) b := by
  induction a generalizing p with
  | nil => exact .inr h
  | cons step rest ih =>
    rw [leadsTo_cons]
    rcases List.mem_cons.1 h with rfl | h
    · exact .inl List.mem_cons_self
    · exact (ih h).imp_left (List.mem_cons_of_mem p)

theorem mem_passed_join {workingPlace : Place} {directory : Path} {name : String}
    (hname : Path.IsName name)
    (h : q ∈ passed (origin workingPlace (directory.join name)) (directory.join name).steps) :
    q ∈ passed (origin workingPlace directory) directory.steps ∨
      q = placeOf workingPlace directory ++ [name] := by
  have horigin : origin workingPlace (directory.join name) = origin workingPlace directory := by
    unfold origin
    rw [Path.isAbsolute_join directory hname.head]
  rw [horigin, Path.steps_join directory hname.head, hname.steps] at h
  refine (mem_passed_append h).elim .inl fun h => ?_
  rcases List.mem_cons.1 h with rfl | h
  · exact .inl (leadsTo_mem_passed _ _)
  · rw [← leadsTo_name _ hname]
    exact .inr (List.mem_singleton.1 h)

theorem passed_subset (p : Place) {front steps : List String} (h : front <+: steps) :
    passed p front ⊆ passed p steps := by
  obtain ⟨back, rfl⟩ := h
  induction front generalizing p with
  | nil =>
    intro q hq
    rw [List.mem_singleton.1 hq]
    exact start_mem_passed p _
  | cons step rest ih => exact List.cons_subset_cons p (ih _)

/-- Steps that can be followed in a tree can be followed wherever the directories that they pass are
directories. -/
theorem follow_of_directories {steps : List String} {node : Option Node}
    (h : ∀ r ∈ passed p steps, t.get? r = some .directory → t'.get? r = some .directory)
    (hfollow : t.follow p steps = .ok (q, node)) : t'.follow p steps = .ok (q, t'.get? q) := by
  induction steps generalizing p with
  | nil =>
    obtain ⟨rfl, -⟩ := Prod.mk.inj (Except.ok.inj hfollow)
    rfl
  | cons step rest ih =>
    obtain ⟨hstep, hrest⟩ := follow_cons_eq_ok.1 hfollow
    have hnext := fun r hr => h r (List.mem_cons_of_mem p hr)
    refine follow_cons_eq_ok.2 ⟨hstep.imp_right ?_, ih hnext hrest⟩
    exact And.imp_right (Or.imp_right (hnext _ (start_mem_passed _ _)))

/-- There is something at a place that steps cannot go on from. -/
def Blocks (t : Tree) (q : Place) : Prop := ∃ n, t.get? q = some n ∧ n ≠ .directory

theorem Blocks.ne_directory (h : t.Blocks q) : t.get? q ≠ some .directory := by
  obtain ⟨n, hget, hn⟩ := h
  rw [hget]
  exact fun heq => hn (Option.some.inj heq)

theorem Blocks.isSome (h : t.Blocks q) : (t.get? q).isSome = true := by
  obtain ⟨n, hget, -⟩ := h
  rw [hget]
  rfl

/-- What is followed depends on nothing but the places that are passed, and on whether they can
be. -/
theorem follow_congr_of_blocks {steps : List String}
    (h : ∀ q ∈ passed p steps, t.get? q = t'.get? q ∨ t.Blocks q ∧ t'.Blocks q)
    (hlast : t.get? (leadsTo p steps) = t'.get? (leadsTo p steps)) :
    t'.follow p steps = t.follow p steps := by
  induction steps generalizing p with
  | nil => exact congrArg (fun node => Except.ok (p, node)) hlast.symm
  | cons step rest ih =>
    rw [leadsTo_cons] at hlast
    have hrest := ih (fun q hq => h q (List.mem_cons_of_mem p hq)) hlast
    rw [follow_cons, follow_cons, hrest]
    rcases h _ (List.mem_cons_of_mem p (start_mem_passed _ rest)) with hsame | ⟨hblocks, hblocks'⟩
    · rw [hsame]
    · simp only [hblocks.ne_directory, hblocks'.ne_directory, hblocks.isSome, hblocks'.isSome]

theorem follow_congr {steps : List String} (h : ∀ q ∈ passed p steps, t.get? q = t'.get? q) :
    t'.follow p steps = t.follow p steps :=
  follow_congr_of_blocks (fun q hq => .inl (h q hq)) (h _ (leadsTo_mem_passed p steps))

/-- Where one name in a directory can be followed to, another one can be as well. -/
theorem follow_sibling {x y : String} (hshort : isTooLong y = false) {steps : List String}
    {node : Option Node} (h : t.follow p (steps ++ [x]) = .ok (q, node)) :
    t.follow p (steps ++ [y]) =
      .ok (leadsTo p (steps ++ [y]), t.get? (leadsTo p (steps ++ [y]))) := by
  induction steps generalizing p with
  | nil => exact follow_cons_eq_ok.2 ⟨.inr ⟨hshort, .inl rfl⟩, rfl⟩
  | cons step rest ih =>
    obtain ⟨hstep, hrest⟩ := follow_cons_eq_ok.1 h
    rw [List.cons_append, leadsTo_cons]
    refine follow_cons_eq_ok.2 ⟨hstep.imp_right (And.imp_right ?_), ih hrest⟩
    exact fun hdir => .inr (hdir.resolve_left (by simp))

section Resolve

variable {workingPlace : Place} {path : Path}

/-- A path that can be resolved in a tree can be resolved wherever the directories that it passes
are directories. -/
theorem resolve_of_directories (h : ∀ r ∈ passed (origin workingPlace path) path.steps,
      t.get? r = some .directory → t'.get? r = some .directory)
    (hslash : path.endsInSlash = false) {node : Option Node}
    (hresolve : t.resolve workingPlace path = .ok (q, node)) :
    t'.resolve workingPlace path = .ok (q, t'.get? q) := by
  obtain ⟨hcheck, hempty, hfollow, -⟩ := resolve_eq_ok_iff.1 hresolve
  refine resolve_eq_ok_iff.2 ⟨hcheck, hempty, follow_of_directories h hfollow, fun h => ?_⟩
  rw [hslash] at h
  cases h

theorem resolve_of_sameDirectories (h : t.SameDirectories t') (hslash : path.endsInSlash = false)
    {node : Option Node} (hresolve : t.resolve workingPlace path = .ok (q, node)) :
    t'.resolve workingPlace path = .ok (q, t'.get? q) :=
  resolve_of_directories (fun r _ => (h r).1) hslash hresolve

/-- Whether a path leads to a directory depends on nothing but the directories. -/
theorem at?_eq_directory_iff (h : t.SameDirectories t') (hslash : path.endsInSlash = false) :
    t'.at? workingPlace path = some .directory ↔ t.at? workingPlace path = some .directory := by
  have himp : ∀ {t t' : Tree}, t.SameDirectories t' → t.at? workingPlace path = some .directory →
      t'.at? workingPlace path = some .directory := by
    intro t t' h hat
    have hresolve := at?_eq_some_iff.1 hat
    have hagain := resolve_of_sameDirectories h hslash hresolve
    rw [(h _).1 (resolve_eq_ok hresolve).2.symm] at hagain
    exact at?_eq_some_iff.2 hagain
  exact ⟨himp h.symm, himp h⟩

/-- What a path leads to depends on nothing but the places that it passes, and on whether it can
pass them. -/
theorem resolve_congr_of_blocks (h : ∀ q ∈ passed (origin workingPlace path) path.steps,
      t.get? q = t'.get? q ∨ t.Blocks q ∧ t'.Blocks q)
    (hlast : t.get? (placeOf workingPlace path) = t'.get? (placeOf workingPlace path)) :
    t'.resolve workingPlace path = t.resolve workingPlace path := by
  unfold resolve
  rw [follow_congr_of_blocks h hlast]

theorem resolve_congr
    (h : ∀ q ∈ passed (origin workingPlace path) path.steps, t.get? q = t'.get? q) :
    t'.resolve workingPlace path = t.resolve workingPlace path := by
  unfold resolve
  rw [follow_congr h]

theorem check_eq_ok_iff :
    check path = .ok () ↔ Char.ofNat 0 ∉ path.toList ∧ path.isTooLong = false := by
  unfold check
  cases hzero : path.toList.contains (Char.ofNat 0) with
  | true =>
    have hmem : Char.ofNat 0 ∈ path.toList := by simpa using hzero
    exact ⟨fun h => (nomatch h), fun h => absurd hmem h.1⟩
  | false =>
    have hmem : Char.ofNat 0 ∉ path.toList := by simpa using hzero
    cases path.isTooLong with
    | true => exact ⟨fun h => (nomatch h), fun h => (nomatch h.2)⟩
    | false => exact ⟨fun _ => ⟨hmem, rfl⟩, fun _ => rfl⟩

/-- Where one file of a directory can be resolved, one with a name that is not longer can be as
well. -/
theorem resolve_sibling (directory : Path) {x y : String} (hx : Path.IsFileName x)
    (hy : Path.IsFileName y) (hsize : y.utf8ByteSize ≤ x.utf8ByteSize) {node : Option Node}
    (h : t.resolve workingPlace (directory.join x) = .ok (q, node)) :
    t.resolve workingPlace (directory.join y) = .ok (placeOf workingPlace (directory.join y),
      t.get? (placeOf workingPlace (directory.join y))) := by
  obtain ⟨hcheck, -, hfollow, -⟩ := resolve_eq_ok_iff.1 h
  obtain ⟨stem, hjoin⟩ := Path.exists_join directory
  have hsteps := Path.steps_join directory hy.head
  have horigin :
      origin workingPlace (directory.join y) = origin workingPlace (directory.join x) := by
    unfold origin
    rw [Path.isAbsolute_join directory hy.head, Path.isAbsolute_join directory hx.head]
  rw [Path.steps_join directory hx.head, hx.steps, ← horigin] at hfollow
  refine resolve_eq_ok_iff.2 ⟨?_, ?_, ?_, fun hslash => ?_⟩
  · rw [hjoin x hx.head] at hcheck
    rw [hjoin y hy.head]
    obtain ⟨hzero, hlong⟩ := check_eq_ok_iff.1 hcheck
    simp only [Path.isTooLong, String.utf8ByteSize_append, String.toList_append, List.mem_append,
      not_or, decide_eq_false_iff_not] at hzero hlong ⊢
    refine check_eq_ok_iff.2 ?_
    simp only [Path.isTooLong, String.utf8ByteSize_append, String.toList_append, List.mem_append,
      not_or, decide_eq_false_iff_not]
    exact ⟨⟨hzero.1, hy.zero⟩, by omega⟩
  · rw [hjoin y hy.head, String.isEmpty_eq_false_iff]
    intro hempty
    exact hy.ne_empty (String.append_eq_empty_iff.1 hempty).2
  · unfold placeOf
    rw [hsteps, hy.steps]
    exact follow_sibling hy.short hfollow
  · rw [Path.endsInSlash_join directory hy] at hslash
    cases hslash

/-! ### The content of files -/

/-- No file changes by itself. -/
def IsStill (t : Tree) : Prop := ∀ q first later, t.get? q ≠ some (.changing first later)

theorem isStill_of_all (h : (t.entries.all fun e =>
    match e.2 with
    | .changing _ _ => false
    | _ => true) = true) : t.IsStill := by
  intro q first later hget
  unfold get? at hget
  split at hget
  · cases hget
  · obtain ⟨front, back, heq, -⟩ := List.lookup_eq_some_iff.1 hget
    have hmem := List.all_eq_true.1 h (q, .changing first later) (by simp [heq])
    cases hmem

def content (t : Tree) (workingPlace : Place) (path : Path) : Except Fault Bytes :=
  (t.read workingPlace path).map (·.1)

theorem resolve_of_content {c : Bytes} (h : t.content workingPlace path = .ok c) :
    ∃ node, t.resolve workingPlace path = .ok (placeOf workingPlace path, node) := by
  unfold content read at h
  cases hresolve : t.resolve workingPlace path with
  | error fault =>
    rw [hresolve] at h
    cases h
  | ok found =>
    obtain ⟨q, node⟩ := found
    obtain ⟨rfl, -⟩ := resolve_eq_ok hresolve
    exact ⟨node, rfl⟩

theorem get?_of_content {c : Bytes} (h : t.content workingPlace path = .ok c) :
    t.get? (placeOf workingPlace path) = some (.file c) ∨
      ∃ later, t.get? (placeOf workingPlace path) = some (.changing c later) := by
  unfold content at h
  cases hread : t.read workingPlace path with
  | error fault =>
    rw [hread] at h
    cases h
  | ok found =>
    rw [hread] at h
    obtain rfl := Except.ok.inj h
    exact (read_eq_ok hread).imp And.left fun ⟨later, hget, _⟩ => ⟨later, hget⟩

theorem read_of_resolve {c : Bytes} (h : t.resolve workingPlace path = .ok (q, some (.file c))) :
    t.read workingPlace path = .ok (c, t) := by
  unfold read
  rw [h]
  rfl

/-- Where no file changes by itself, what is read is the file that the path leads to. -/
theorem content_eq_ok_iff (h : t.IsStill) {c : Bytes} :
    t.content workingPlace path = .ok c ↔
      ∃ q, t.resolve workingPlace path = .ok (q, some (.file c)) := by
  constructor
  · intro hc
    unfold content read at hc
    cases hresolve : t.resolve workingPlace path with
    | error fault => simp [hresolve, bind, Except.bind, Except.map] at hc
    | ok found =>
      obtain ⟨p, node⟩ := found
      obtain ⟨rfl, hget⟩ := resolve_eq_ok hresolve
      rw [hresolve] at hc
      cases node with
      | none => cases hc
      | some n =>
        cases n with
        | directory => cases hc
        | file content => exact ⟨_, by rw [← Except.ok.inj hc]⟩
        | changing first later => exact absurd hget.symm (h _ _ _)
  · rintro ⟨q, hresolve⟩
    unfold content
    rw [read_of_resolve hresolve]
    rfl

theorem content_congr (h : t'.resolve workingPlace path = t.resolve workingPlace path) :
    t'.content workingPlace path = t.content workingPlace path := by
  unfold content read
  rw [h]
  cases t.resolve workingPlace path with
  | error fault => rfl
  | ok found =>
    obtain ⟨p, node⟩ := found
    cases node with
    | none => rfl
    | some n => cases n <;> rfl

end Resolve

/-! ### Making directories -/

/-- All that is new in a tree are directories at such places. -/
def Grows (made : Place → Prop) (t t' : Tree) : Prop :=
  ∀ q, t'.get? q = t.get? q ∨ t.get? q = none ∧ t'.get? q = some .directory ∧ made q

section Grows

variable {made made' : Place → Prop} {steps : List String}

theorem Grows.refl (t : Tree) : Grows made t t := fun _ => .inl rfl

theorem Grows.trans {t'' : Tree} (h : Grows made t t') (h' : Grows made t' t'') :
    Grows made t t'' := by
  intro q
  rcases h q with hsame | ⟨hnone, hdir, hmade⟩
  · exact hsame ▸ h' q
  · rcases h' q with hsame' | ⟨hnone', -⟩
    · exact .inr ⟨hnone, hsame'.trans hdir, hmade⟩
    · rw [hdir] at hnone'
      cases hnone'

theorem Grows.mono (h : Grows made t t') (hmade : ∀ q, made q → made' q) : Grows made' t t' :=
  fun q => (h q).imp_right fun ⟨hnone, hdir, hq⟩ => ⟨hnone, hdir, hmade q hq⟩

theorem Grows.isStill (h : Grows made t t') (hstill : t.IsStill) : t'.IsStill := by
  intro q first later hget
  rcases h q with hsame | ⟨-, hdir, -⟩
  · exact hstill q first later (hsame.symm.trans hget)
  · rw [hdir] at hget
    cases hget

theorem ensureDirectory_grows :
    Grows (· ∈ passed p steps) t (t.ensureDirectory p steps).2 := by
  unfold ensureDirectory makeDirectory
  cases hfollow : t.follow p steps with
  | error fault => exact .refl t
  | ok found =>
    obtain ⟨q, node⟩ := found
    obtain ⟨rfl, rfl⟩ := follow_eq_ok hfollow
    cases hget : t.get? (leadsTo p steps) with
    | some node => exact .refl t
    | none =>
      intro q
      by_cases hq : q = leadsTo p steps
      · subst hq
        refine .inr ⟨hget, get?_put (ne_nil_of_get?_ne (t := t) ?_), leadsTo_mem_passed p steps⟩
        rw [hget]
        exact nofun
      · exact .inl (get?_put_of_ne hq)

/-- Directories are made on the way to the one that is meant. -/
theorem makeDirectories_grows :
    Grows (· ∈ passed p steps) t (t.makeDirectories p steps).2 := by
  have hgrows : ∀ {t t' : Tree} {steps : List String} {r : Except Fault Unit},
      t.ensureDirectory p steps = (r, t') → Grows (· ∈ passed p steps) t t' := by
    intro t t' steps r h
    have hensured := @ensureDirectory_grows t p steps
    rwa [h] at hensured
  fun_induction makeDirectories t p steps with
  | case1 t => exact .refl t
  | case2 t steps _ t₁ hfirst t₂ habove ih =>
    rw [habove] at ih
    have hway := ih.mono fun q hq => passed_subset p (Path.above_prefix steps) hq
    exact ((hgrows hfirst).trans hway).trans ensureDirectory_grows
  | case3 t steps _ t₁ hfirst _ ih =>
    exact (hgrows hfirst).trans (ih.mono fun q hq => passed_subset p (Path.above_prefix steps) hq)
  | case4 => exact ensureDirectory_grows

theorem createDirectories_grows {workingPlace : Place} {path : Path} :
    Grows (· ∈ passed (origin workingPlace path) path.steps) t
      (t.createDirectories workingPlace path).2 := by
  unfold createDirectories
  cases check path with
  | error fault => exact .refl t
  | ok => exact makeDirectories_grows

end Grows

end Tree

end PathPolicy.Files
