import PathPolicy.Proofs.Locking
import PathPolicy.Proofs.Repetition
import PathPolicy.Proofs.Trampolines
import PathPolicy.Proofs.TwoContexts

/-!
# Policies for other machines

A loader writes a policy in two variants, for kernels with emulated trampolines and for those
without. It says itself which of them the policy is for, and asks no kernel: a compilation for given
features (`run_compileLines_given`) depends on nothing of the world but what is known about images,
and that decides whether there is a policy, not which (`repeats_compileLines`). So the same is
written in every world with the same configuration (`IsClear.configToFile`).

The configuration is read again for the second variant, when the first one has been written. That
makes no difference, because no file of the configuration has the name of a variant
(`repeats_configuration`). Both variants are made from the same lines then, and describe one policy
(`configToFile_variants`).
-/

namespace PathPolicy

open Files (Path Place Tree)

namespace Loader

variable {l : Loader} {w w' : World} {directory : Path} {lines : List Config.Line}
  {options : Options} {features : Kernel.Features}

/-! ## Compiling for a given kernel -/

/-- Features that say all that a policy depends on. -/
def Decides (features : Kernel.Features) : Prop :=
  (features.get? Protection.name Protection.emutrampFeature).isSome

theorem decides_variantFeatures (available : Bool) : Decides (variantFeatures available) := by
  cases available <;> rfl

/-- The context of lines where the features are given. -/
def given (l : Loader) (w : World) (lines : List Config.Line) (options : Options)
    (features : Kernel.Features) : Context where
  options := options
  features := features.layer Kernel.Features.empty
  inspector := l.knows w ((lines.map (·.tokens)).flatMap Submodule.protection.consulted)
  strictness := l.strictness

theorem run_context_given (hfeatures : Decides features) :
    w.run (l.context .protection (lines.map (·.tokens)) options features l.strictness) =
      (.ok (l.given w lines options features), w) := by
  have hunknown : (Submodule.protection.policyFeatures.filter fun name =>
      (features.get? Submodule.protection.name name).isNone) = [] := by
    refine List.filter_cons_of_neg ?_
    rw [Bool.not_eq_true, Option.isNone_eq_false_iff]
    exact hfeatures
  have hrun : w.run (l.features .protection features) =
      (.ok (features.layer Kernel.Features.empty), w) := by
    unfold Loader.features
    rw [hunknown]
    rfl
  exact run_context_of_features hrun _ options l.strictness

theorem run_compileLines_given (hfeatures : Decides features) :
    ∃ events, w.run (l.compileLines .protection lines options features) =
      ((Protection.compile lines (l.given w lines options features)).result.mapError .config,
        { w with events := events }) :=
  run_compileLines (run_context_given hfeatures)

theorem compile_of_run (hfeatures : Decides features) {p : Policy}
    (h : w.run (l.compileLines .protection lines options features) = (.ok p, w')) :
    (Protection.compile lines (l.given w lines options features)).result = .ok p ∧
      ∃ events, w' = { w with events := events } := by
  obtain ⟨events, hrun⟩ := @run_compileLines_given l w lines options features hfeatures
  rw [hrun] at h
  obtain ⟨hresult, rfl⟩ := Prod.mk.inj h
  refine ⟨?_, events, rfl⟩
  cases hcompile : (Protection.compile lines (l.given w lines options features)).result with
  | error e =>
    rw [hcompile] at hresult
    cases hresult
  | ok found =>
    rw [hcompile] at hresult
    exact congrArg Except.ok (Except.ok.inj hresult)

/-- Where every line has to be a rule, lines give the same policy in every world in which they give
one; if images are known beforehand, they give it in every world. -/
theorem repeats_compileLines {A : World → World → Prop} [Unheard A]
    (hstrict : l.strictness = .strict) (hfeatures : Decides features) :
    Repeats A (∃ inspector, l.images = .known inspector)
      (l.compileLines .protection lines options features) := by
  intro w v hA p w' h
  obtain ⟨hp, es, rfl⟩ := compile_of_run hfeatures h
  refine ⟨?_, fun p' v' h' => ?_⟩
  · rintro ⟨inspector, himages⟩
    have hgiven : l.given v lines options features = l.given w lines options features := by
      unfold given knows
      rw [himages]
    obtain ⟨es', hrun⟩ := @run_compileLines_given l v lines options features hfeatures
    rw [hgiven, hp] at hrun
    exact ⟨_, hrun⟩
  · obtain ⟨hp', es', rfl⟩ := compile_of_run hfeatures h'
    have hsupport : (Protection.Reader.ofContext (l.given v lines options features)).support =
        (Protection.Reader.ofContext (l.given w lines options features)).support := rfl
    exact ⟨Protection.policy_eq_of_strict hstrict hstrict hsupport hp hp',
      Unheard.events hA _ _⟩

/-! ## Writing variants -/

def variantFile (directory : Path) (available : Bool) : Path :=
  Path.join directory (Protection.name ++ variantSuffix available)

/-- What is read of the configuration to write a variant. -/
def configuration (l : Loader) : Task (StateM World) (Options × List Config.Line) := do
  let options ← l.options
  let lines ← Config.readRuleLines l.configDirectory Protection.name
  return (options, lines)

def variant (l : Loader) (available : Bool) : Task (StateM World) Policy := do
  let (options, lines) ← l.configuration
  l.compileLines .protection lines options (variantFeatures available)

theorem writeVariant_eq (l : Loader) (directory : Path) (available : Bool) :
    (l.writeVariant directory available : Task (StateM World) (List Path)) =
      l.variant available >>= fun policy =>
      Task.writeBytes (variantFile directory available) policy.binary >>= fun _ =>
      pure [variantFile directory available] := by
  have hall : (Submodule.all.mergeSort fun a b => a.name ≤ b.name) = [.protection] :=
    List.mergeSort_singleton _
  unfold writeVariant binaries variant configuration compile
  dsimp only
  rw [hall]
  simp only [List.mapM_cons, List.mapM_nil, bind_assoc, pure_bind]
  refine bind_congr fun options => bind_congr fun lines => bind_congr fun policy => ?_
  rw [List.filter_cons_of_pos (by cases available <;> rfl), List.filter_nil]
  simp only [List.mapM_cons, List.mapM_nil, bind_assoc, pure_bind]
  rfl

end Loader

namespace World

variable {w w' v : World} {path : Path} {c : Bytes} {start p : Place} {sure : Prop}

theorem writeFile_eq_ok {u : Unit} :
    (Host.writeFile path c : StateM World _) w = (.ok u, w') ↔ path.endsInSlash = false ∧
      (∃ node, w.tree.resolve w.workingPlace path =
        .ok (Tree.placeOf w.workingPlace path, node) ∧ node ≠ some .directory) ∧
      w' = (w.putFile (Tree.placeOf w.workingPlace path) c).react
        (Tree.placeOf w.workingPlace path) c := by
  rw [writeFile_eq]
  constructor
  · intro h
    cases hwrite : w.tree.write w.workingPlace path c with
    | error fault =>
      rw [hwrite] at h
      cases h
    | ok found =>
      obtain ⟨q, tree⟩ := found
      rw [hwrite] at h
      obtain ⟨hslash, ⟨node, hresolve, hnode⟩, rfl⟩ := Tree.write_eq_ok_iff.1 hwrite
      obtain ⟨rfl, -⟩ := Tree.resolve_eq_ok hresolve
      exact ⟨hslash, ⟨node, hresolve, hnode⟩, (Prod.mk.inj h).2.symm⟩
  · rintro ⟨hslash, hresolve, rfl⟩
    rw [Tree.write_eq_ok_iff.2 ⟨hslash, hresolve, rfl⟩]
    rfl

theorem SameBut.writeBytes {name : String}
    (hpath : ∀ q ∈ Tree.passed (Tree.origin start path) path.steps, ¬ p <+: q)
    (hnames : ∀ name ∈ start, Path.IsName name)
    (hlast : (Tree.placeOf start path).getLast? = some name) (hload : name ≠ Kernel.loadFile)
    (hquestion : name ≠ Kernel.questionFile) :
    Repeats (SameBut start p) sure (Task.writeBytes path c) := by
  refine Repeats.access fun w v h u w' hw => ?_
  obtain ⟨hslash, ⟨node, hresolve, hnode⟩, rfl⟩ := writeFile_eq_ok.1 hw
  rw [h.workingPlace] at hresolve ⊢
  refine ⟨_, writeFile_eq_ok.2 ⟨hslash, ⟨node, ?_, hnode⟩, rfl⟩, ?_⟩
  · rw [h.workingPlace', h.tree.resolve_eq hpath, hresolve]
  · rw [h.workingPlace', react_of_getLast? hlast hload hquestion,
      react_of_getLast? hlast hload hquestion]
    exact ⟨h.workingPlace, h.workingPlace',
      h.tree.put (hpath _ (Tree.leadsTo_mem_passed _ _))
        (Tree.isName_of_mem_placeOf hnames path) nofun⟩

theorem SameBut.createDirectories
    (hpath : ∀ q ∈ Tree.passed (Tree.origin start path) path.steps, ¬ p <+: q)
    (hnames : ∀ name ∈ start, Path.IsName name) {kind : Access} :
    Repeats (SameBut start p) sure (Task.access kind path (Host.createDirectories path)) := by
  refine Repeats.access fun w v h u w' hw => ?_
  obtain ⟨hresult, rfl⟩ := Prod.mk.inj hw
  obtain ⟨hsame, htree⟩ := h.tree.createDirectories hnames hpath
  have hplace := h.workingPlace
  subst hplace
  have hv : (Host.createDirectories path : StateM World _) v =
      ((v.tree.createDirectories v.workingPlace path).1,
        { v with tree := (v.tree.createDirectories v.workingPlace path).2 }) := rfl
  rw [hv, h.workingPlace', hsame]
  exact ⟨_, Prod.ext hresult rfl, rfl, rfl, htree⟩

theorem still_of_createDirectories {u : Unit} {kind : Access} (hstill : w.tree.IsStill)
    (h : w.run (Task.access kind path (Host.createDirectories path)) = (.ok u, w')) :
    w'.workingPlace = w.workingPlace ∧ w'.tree.IsStill := by
  obtain ⟨-, rfl⟩ := Prod.mk.inj (World.run_access_ok h)
  exact ⟨rfl, Tree.createDirectories_grows.isStill hstill⟩

end World

namespace Loader

variable {l : Loader} {w w' : World} {directory : Path} {start p : Place} {sure : Prop}

/-- The paths that are used to write variants, besides those of the rule files in a directory. -/
def paths (l : Loader) (directory : Path) : List Path :=
  [Path.join l.configDirectory Config.mainFile,
    Path.join l.configDirectory (Protection.name ++ ".conf"),
    Path.join l.configDirectory (Protection.name ++ ".conf.d"), directory,
    variantFile directory true, variantFile directory false]

/-- What is at a place and below it has nothing to do with the configuration and the output. -/
structure IsClear (l : Loader) (directory : Path) (start p : Place) : Prop where
  way : ∀ path ∈ l.paths directory, ∀ q ∈ Tree.passed (Tree.origin start path) path.steps, ¬ p <+: q
  below : ¬ Tree.placeOf start (Path.join l.configDirectory (Protection.name ++ ".conf.d")) <+: p

theorem IsClear.options (h : l.IsClear directory start p) :
    Repeats (World.SameBut start p) sure l.options :=
  (World.SameBut.sees_text (h.way _ (by simp [paths]))).readOptions

theorem IsClear.lines (h : l.IsClear directory start p) :
    Repeats (World.SameBut start p) sure
      (Config.readRuleLines l.configDirectory Protection.name) := by
  have hway := h.way (Path.join l.configDirectory (Protection.name ++ ".conf.d")) (by simp [paths])
  refine Sees.readRuleLines (World.SameBut.sees_names hway h.below)
    (World.SameBut.sees_text (h.way _ (by simp [paths]))) fun w v hA names hlist name hname _ => ?_
  rw [hA.workingPlace] at hlist
  rw [Tree.list_eq_ok hlist] at hname
  have hisName := hA.tree.isNamed.of_mem_children hname
  refine World.SameBut.sees_text fun q hq hp => ?_
  rcases Tree.mem_passed_join hisName hq with hq | rfl
  · exact hway q hq hp
  · rcases List.prefix_concat_iff.1 hp with rfl | hp
    · exact h.below (List.prefix_append _ _)
    · exact hway _ (Tree.leadsTo_mem_passed _ _) hp

theorem placeOf_variantFile (start : Place) (directory : Path) (available : Bool) :
    Tree.placeOf start (variantFile directory available) =
      Tree.placeOf start directory ++ [Protection.name ++ variantSuffix available] :=
  Tree.placeOf_join start directory (variantName available).1

theorem variantFile_ne (start : Place) (directory : Path) :
    Tree.placeOf start (variantFile directory true) ≠
      Tree.placeOf start (variantFile directory false) := by
  rw [placeOf_variantFile, placeOf_variantFile]
  exact fun heq => absurd (List.append_cancel_left heq) (by decide)

theorem getLast?_variantFile (start : Place) (directory : Path) (available : Bool) :
    (Tree.placeOf start (variantFile directory available)).getLast? =
      some (Protection.name ++ variantSuffix available) := by
  rw [placeOf_variantFile, List.getLast?_concat]

theorem variantName_ne (available : Bool) :
    Protection.name ++ variantSuffix available ≠ Kernel.loadFile ∧
      Protection.name ++ variantSuffix available ≠ Kernel.questionFile := by
  have hother := (variantName available).2
  simp only [List.mem_cons, List.not_mem_nil, or_false, not_or] at hother
  exact hother.2

theorem IsClear.writeVariant (h : l.IsClear directory start p) (hstrict : l.strictness = .strict)
    (hnames : ∀ name ∈ start, Path.IsName name) (available : Bool) :
    Repeats (World.SameBut start p) (∃ inspector, l.images = .known inspector)
      (l.writeVariant directory available) := by
  rw [writeVariant_eq]
  refine Repeats.bind ?_ fun policy => Repeats.bind ?_ fun _ => .pure _
  · refine (h.options.bind fun options => h.lines.bind fun lines => .pure _).bind fun read => ?_
    exact repeats_compileLines hstrict (decides_variantFeatures available)
  · exact World.SameBut.writeBytes (h.way _ (by cases available <;> simp [paths])) hnames
      (getLast?_variantFile _ _ _) (variantName_ne _).1 (variantName_ne _).2

/-- Variants are the same in every world with the same configuration. -/
theorem IsClear.configToFile (h : l.IsClear directory start p) (hstrict : l.strictness = .strict)
    (hnames : ∀ name ∈ start, Path.IsName name) :
    Repeats (World.SameBut start p) (∃ inspector, l.images = .known inspector)
      (l.configToFile directory) :=
  (World.SameBut.createDirectories (h.way _ (by simp [paths])) hnames).bind fun _ =>
    (h.writeVariant hstrict hnames true).bind fun _ =>
      (h.writeVariant hstrict hnames false).bind fun _ => .pure _

/-! ## One variant -/

/-- Where no file changes by itself, a program that only reads leaves all files as they were. -/
theorem tree_of_moves {α : Type} {t : Task (StateM World) α} {r : Except Failure α}
    (hmoves : Moves (World.IsAt w.workingPlace) World.Rests t.run) (hstill : w.tree.IsStill)
    (h : w.run t = (r, w')) : w'.workingPlace = w.workingPlace ∧ w'.tree = w.tree := by
  obtain ⟨hrests, -⟩ := hmoves.of_run rfl h
  exact ⟨hrests.workingPlace, hrests.tree hstill⟩

theorem configuration_moves (l : Loader) {start : Place} :
    Moves (World.IsAt start) World.Rests l.configuration.run :=
  .run_bind (.readOptions _) fun _ => .run_bind (.readRuleLines _ _) fun _ => .run_pure _

theorem configuration_rests (hstill : w.tree.IsStill) {read : Options × List Config.Line}
    (h : w.run l.configuration = (.ok read, w')) :
    w'.workingPlace = w.workingPlace ∧ w'.tree = w.tree :=
  tree_of_moves (configuration_moves l) hstill h

/-- How a variant is written: the policy of the configuration is put into a file. -/
theorem run_writeVariant (hstill : w.tree.IsStill) {available : Bool} {paths : List Path}
    (h : w.run (l.writeVariant directory available) = (.ok paths, w')) :
    ∃ options lines w₁ policy, w.run l.configuration = (.ok (options, lines), w₁) ∧
      (Protection.compile lines (l.given w₁ lines options (variantFeatures available))).result =
        .ok policy ∧
      paths = [variantFile directory available] ∧
      World.Adds w.workingPlace
        (Tree.placeOf w.workingPlace (variantFile directory available)) w w' ∧
      w'.tree = w.tree.put (Tree.placeOf w.workingPlace (variantFile directory available))
        (.file policy.binary) := by
  rw [writeVariant_eq] at h
  obtain ⟨policy, w₃, hvariant, h⟩ := World.run_bind_ok h
  obtain ⟨u, w₄, hwrite, hend⟩ := World.run_bind_ok h
  obtain ⟨⟨options, lines⟩, w₂, hread, hcompile⟩ := World.run_bind_ok hvariant
  obtain ⟨hplace, htree⟩ := configuration_rests hstill hread
  obtain ⟨hpolicy, events, rfl⟩ := compile_of_run (decides_variantFeatures available) hcompile
  obtain ⟨-, ⟨node, hresolve, hnode⟩, hw₄⟩ := World.writeFile_eq_ok.1 (World.run_access_ok hwrite)
  obtain ⟨-, rfl⟩ := Tree.resolve_eq_ok hresolve
  obtain ⟨hpaths, rfl⟩ := Prod.mk.inj hend
  rw [World.react_of_getLast? (getLast?_variantFile _ _ _) (variantName_ne _).1
    (variantName_ne _).2] at hw₄
  subst hw₄
  rw [htree, hplace] at hnode ⊢
  exact ⟨options, lines, w₂, policy, hread, hpolicy, (Except.ok.inj hpaths).symm,
    ⟨rfl, rfl, hstill, hnode, _, rfl⟩, rfl⟩

/-- A variant does not have the name of a file of the configuration, so that the same is read after
one was written. -/
theorem repeats_configuration (l : Loader) (start : Place) (directory : Path) (available : Bool) :
    Repeats (World.Adds start (Tree.placeOf start (variantFile directory available))) False
      l.configuration := by
  have hlast := getLast?_variantFile start directory available
  have hends : ∀ c ∈ ['l', 'f', 'd'],
      (Protection.name ++ variantSuffix available).toList.getLast? ≠ some c ∧
        c ≠ '/' ∧ c ≠ '.' := by
    simp only [List.forall_mem_cons, List.not_mem_nil, false_implies, implies_true, and_true]
    cases available <;> decide
  have hconf : Path.hasConfExtension (Protection.name ++ variantSuffix available) = false := by
    cases available <;> decide
  have htext : ∀ (path : Path) (c : Char), c ∈ ['l', 'f', 'd'] → path.toList.getLast? = some c →
      Sees (World.Adds start (Tree.placeOf start (variantFile directory available))) False id
        (Task.tryReadText path : StateM World _) := by
    intro path c hc hpath
    obtain ⟨hname, hslash, hdot⟩ := hends c hc
    exact World.Adds.sees_text hlast hname hpath hslash hdot
  obtain ⟨hname, hslash, hdot⟩ := hends 'd' (by simp)
  refine (htext _ 'l' (by simp) (Path.getLast?_join _ rfl)).readOptions.bind fun options =>
    (Sees.readRuleLines ?_ ?_ fun _ _ _ _ _ file _ hfile => ?_).bind fun _ => .pure _
  · exact World.Adds.sees_names hlast hname (Path.getLast?_join _ rfl) hslash hdot hconf
  · exact htext _ 'f' (by simp) (Path.getLast?_join _ rfl)
  · exact htext _ 'f' (by simp) (Path.getLast?_join _ (Path.getLast?_of_hasConfExtension hfile))

end Loader

/-! ## Both variants -/

/-- All names in a world are names of files. -/
structure World.IsNamed (w : World) : Prop where
  workingPlace : ∀ name ∈ w.workingPlace, Path.IsName name
  tree : w.tree.IsNamed

/-- The files of both variants are in a directory. -/
structure World.HoldsVariants (w : World) (directory : Path) (b b' : Bytes) : Prop where
  trampolines : w.tree.get? (Tree.placeOf w.workingPlace (Loader.variantFile directory true)) =
    some (.file b)
  noTrampolines : w.tree.get? (Tree.placeOf w.workingPlace (Loader.variantFile directory false)) =
    some (.file b')

/-- Two binary forms have the same digest, and the same programs in the same order. In the second
one, flags are what those in the first one become without trampolines. -/
structure Protection.AreVariants (b b' : Bytes) (digest : Digest) (rules rules' : List Rule) :
    Prop where
  binary : b = Blob.bytesOf rules digest
  binary' : b' = Blob.bytesOf rules' digest
  decode : rules.length < 2 ^ 32 → Blob.decode b = .ok (digest, rules) ∧
    Blob.decode b' = .ok (digest, rules')
  records : List.Forall₂ (fun rule rule' => (rule.path, rule.exact) = (rule'.path, rule'.exact) ∧
    rule.flags.Degrades rule'.flags) rules rules'

namespace Loader

variable {l : Loader} {w w' : World} {directory : Path} {paths : List Path}

/-- Lines give variants of one policy, if they give policies with and without trampolines. -/
theorem areVariants_of_compile (hstrict : l.strictness = .strict) {w₁ w₂ : World}
    {lines : List Config.Line} {options : Options} {p p' : Policy}
    (hp : (Protection.compile lines (l.given w₁ lines options (variantFeatures true))).result =
      .ok p)
    (hp' : (Protection.compile lines (l.given w₂ lines options (variantFeatures false))).result =
      .ok p') : ∃ rules rules',
        Protection.AreVariants p.binary p'.binary p.digest rules rules' := by
  obtain ⟨-, -, rules, rules', hbinary, hbinary', hrules, hrules', hrecords⟩ :=
    Protection.exists_records_of_strict hstrict hstrict hp hp'
  refine ⟨rules, rules', hbinary, hbinary', fun hlen => ⟨?_, ?_⟩, hrecords.imp ?_⟩
  · rw [hbinary, Protection.Blob.decode_bytesOf hrules hlen]
  · rw [hbinary', Protection.Blob.decode_bytesOf hrules' (hrecords.length_eq ▸ hlen)]
  · rintro a b ⟨line, -, ha, hb⟩
    exact ⟨Protection.Reader.path_eq_of_read ha hb, Protection.Flags.parse_degrades
      (Protection.Reader.reads_of_read ha).flags (Protection.Reader.reads_of_read hb).flags⟩

/-- Both variants are written, and the second one does not replace the first one. -/
theorem run_configToFile (hstrict : l.strictness = .strict) (hstill : w.tree.IsStill)
    (h : w.run (l.configToFile directory) = (.ok paths, w')) :
    ∃ b b' digest rules rules', paths = [variantFile directory true, variantFile directory false] ∧
      w'.workingPlace = w.workingPlace ∧ w'.HoldsVariants directory b b' ∧
      Protection.AreVariants b b' digest rules rules' := by
  unfold configToFile at h
  obtain ⟨u, w₁, hmade, h⟩ := World.run_bind_ok h
  obtain ⟨first, w₂, hfirst, h⟩ := World.run_bind_ok h
  obtain ⟨second, w₃, hsecond, hend⟩ := World.run_bind_ok h
  obtain ⟨hpaths, rfl⟩ := Prod.mk.inj hend
  obtain ⟨hplace₁, hstill₁⟩ := World.still_of_createDirectories hstill hmade
  obtain ⟨options, lines, r, p, hread, hp, rfl, hadds, htree₂⟩ := run_writeVariant hstill₁ hfirst
  obtain ⟨options', lines', r', p', hread', hp', rfl, hadds', htree₃⟩ :=
    run_writeVariant hadds.isStill_after hsecond
  obtain ⟨hsame, -⟩ :=
    (repeats_configuration l _ directory true w₁ w₂ hadds _ r hread).2 _ r' hread'
  obtain ⟨rfl, rfl⟩ := Prod.mk.inj hsame
  obtain ⟨rules, rules', hvariants⟩ := areVariants_of_compile hstrict hp hp'
  have hplace₂ := hadds.workingPlace'
  have hplace : w₃.workingPlace = w₁.workingPlace := hadds'.workingPlace'.trans hplace₂
  refine ⟨p.binary, p'.binary, p.digest, rules, rules', (Except.ok.inj hpaths).symm,
    hplace.trans hplace₁, ⟨?_, ?_⟩, hvariants⟩
  · rw [hplace, htree₃, hplace₂, Tree.get?_put_of_ne (variantFile_ne _ _), htree₂,
      Tree.get?_put_file hadds.ne_directory]
  · rw [hplace, htree₃, ← hplace₂]
    exact Tree.get?_put_file hadds'.ne_directory

theorem IsClear.holdsVariants {start p : Place} (hclear : l.IsClear directory start p) {v : World}
    (h : World.SameBut start p w v) {b b' : Bytes} (hw : w.HoldsVariants directory b b') :
    v.HoldsVariants directory b b' := by
  have hsame : ∀ available,
      v.tree.get? (Tree.placeOf v.workingPlace (variantFile directory available)) =
        w.tree.get? (Tree.placeOf w.workingPlace (variantFile directory available)) := by
    intro available
    rw [h.workingPlace, h.workingPlace']
    exact h.tree.get?_eq (hclear.way _ (by cases available <;> simp [Loader.paths]) _
      (Tree.leadsTo_mem_passed _ _))
  exact ⟨(hsame true).trans hw.trampolines, (hsame false).trans hw.noTrampolines⟩

/-- The two variants that are written describe one policy: they have the same digest and the same
programs in the same order, and the flags of the second one are those of the first one without
trampolines. They are the same in every world that is the same but for what is at a place and below
it, whatever the kernel says there, as long as neither the configuration nor the output is there. If
images are known beforehand, they are written there as well. -/
theorem configToFile_variants (hstrict : l.strictness = .strict) (hstill : w.tree.IsStill)
    (h : w.run (l.configToFile directory) = (.ok paths, w')) :
    ∃ b b' digest rules rules', paths = [variantFile directory true, variantFile directory false] ∧
      w'.HoldsVariants directory b b' ∧ Protection.AreVariants b b' digest rules rules' ∧
      ∀ (p : Place) (v : World), l.IsClear directory w.workingPlace p → w.IsNamed →
        v.workingPlace = w.workingPlace → v.tree.erase p = w.tree.erase p →
          ((∃ inspector, l.images = .known inspector) →
            ∃ v', v.run (l.configToFile directory) = (.ok paths, v')) ∧
          ∀ paths' v', v.run (l.configToFile directory) = (.ok paths', v') →
            paths' = paths ∧ v'.HoldsVariants directory b b' := by
  obtain ⟨b, b', digest, rules, rules', hpaths, hplace, hholds, hvariants⟩ :=
    run_configToFile hstrict hstill h
  refine ⟨b, b', digest, rules, rules', hpaths, hholds, hvariants,
    fun p v hclear hnamed hv herase => ?_⟩
  have hbut : World.SameBut w.workingPlace p w v := ⟨rfl, hv, herase, hnamed.tree, hstill⟩
  obtain ⟨hends, hsame⟩ := hclear.configToFile hstrict hnamed.workingPlace w v hbut paths w' h
  refine ⟨hends, fun paths' v' h' => ?_⟩
  obtain ⟨rfl, hbut'⟩ := hsame paths' v' h'
  exact ⟨rfl, hclear.holdsVariants hbut' hholds⟩

/-- The loader of the sample, with images of which nothing is known. -/
def blindLoader : Loader := { sampleLoader with images := .known .blind }

/-- The sample without a kernel. -/
def kernelless : World := { sampleWorld with tree := sampleWorld.tree.erase ["sara"] }

/-- What becomes of the sample when its variants are written. -/
def sampleOutput : Except Failure (List Path) × World :=
  sampleWorld.run (blindLoader.configToFile "/out")

theorem sampleOutput_differs :
    sampleOutput.1.toOption = some ["/out/wxprot", "/out/wxprot_noemutramp"] ∧
      sampleOutput.2.tree.get?
          (Tree.placeOf sampleOutput.2.workingPlace (variantFile "/out" true)) ≠
        sampleOutput.2.tree.get?
          (Tree.placeOf sampleOutput.2.workingPlace (variantFile "/out" false)) := by
  decide +kernel

/-- The variants of the sample are different ones, and the same without a kernel. -/
theorem configToFile_variants_sample :
    blindLoader.strictness = .strict ∧ sampleWorld.tree.IsStill ∧
      ∃ w' v' b b' digest rules rules',
        sampleWorld.run (blindLoader.configToFile "/out") =
          (.ok ["/out/wxprot", "/out/wxprot_noemutramp"], w') ∧
        w'.HoldsVariants "/out" b b' ∧ b ≠ b' ∧
        Protection.AreVariants b b' digest rules rules' ∧
        blindLoader.IsClear "/out" sampleWorld.workingPlace ["sara"] ∧ sampleWorld.IsNamed ∧
        kernelless.run (blindLoader.configToFile "/out") =
          (.ok ["/out/wxprot", "/out/wxprot_noemutramp"], v') ∧
        v'.HoldsVariants "/out" b b' := by
  obtain ⟨hpaths, hdifferent⟩ := sampleOutput_differs
  obtain ⟨w', hrun⟩ : ∃ w', sampleWorld.run (blindLoader.configToFile "/out") = (.ok _, w') :=
    World.run_of_toOption hpaths
  obtain rfl : sampleOutput.2 = w' := congrArg Prod.snd hrun
  have hstill : sampleWorld.tree.IsStill := Tree.isStill_of_all (by decide +kernel)
  have hclear : blindLoader.IsClear "/out" sampleWorld.workingPlace ["sara"] :=
    ⟨by decide +kernel, by decide +kernel⟩
  have hnamed : sampleWorld.IsNamed := ⟨by decide +kernel, by decide +kernel⟩
  obtain ⟨b, b', digest, rules, rules', -, hholds, hvariants, hsame⟩ :=
    configToFile_variants rfl hstill hrun
  obtain ⟨hends, hagain⟩ := hsame ["sara"] kernelless hclear hnamed rfl (by decide +kernel)
  obtain ⟨v', hrun'⟩ := hends ⟨_, rfl⟩
  refine ⟨rfl, hstill, _, v', b, b', digest, rules, rules', hrun, hholds, ?_, hvariants, hclear,
    hnamed, hrun', (hagain _ _ hrun').2⟩
  rintro rfl
  exact hdifferent (hholds.trampolines.trans hholds.noTrampolines.symm)

end Loader

end PathPolicy
