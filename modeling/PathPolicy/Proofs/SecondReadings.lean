import PathPolicy.Proofs.Changes
import PathPolicy.Proofs.Loading
import PathPolicy.Proofs.Rereading

/-!
# What is read before and after a load

A load leaves almost everything as it is (`World.Spares`), so what was read before it is read again
after it: the flags of the kernel, the main options, and the features. What a load writes is no
image, so an image that is found after it was there before. A reader with all this allows no less
than the one before the load (`Loader.Makes.readsAgain`).
-/

namespace PathPolicy

open Files (Path Place Tree)

/-! ## Files -/

namespace World

variable {w w' : World} {path : Path} {q : Place}

theorem fileOf_inj {submodule submodule' file file' : String}
    (h : w.fileOf submodule file = w.fileOf submodule' file') :
    (submodule, file) = (submodule', file') := by
  obtain ⟨rfl, hfile⟩ := List.cons.inj (List.append_cancel_left h)
  rw [(List.cons.inj hfile).1]

theorem SameFrame.resolve (h : w.SameFrame w') (hslash : path.endsInSlash = false)
    {node : Option Files.Node} (hresolve : w.tree.resolve w.workingPlace path = .ok (q, node)) :
    w'.tree.resolve w'.workingPlace path = .ok (q, w'.tree.get? q) := by
  rw [h.workingPlace]
  exact Tree.resolve_of_sameDirectories h.sameDirectories hslash hresolve

theorem SameFrame.at?_eq_directory (h : w.SameFrame w') (hslash : path.endsInSlash = false)
    (hat : w.tree.at? w.workingPlace path = some .directory) :
    w'.tree.at? w'.workingPlace path = some .directory := by
  rw [h.workingPlace]
  exact (Tree.at?_eq_directory_iff h.sameDirectories hslash).2 hat

theorem Refills.content_eq_ok (h : w.Refills w') (hstill : w.tree.IsStill)
    (hslash : path.endsInSlash = false)
    (hplace : ∀ e ∈ loadedFiles, Tree.placeOf w.workingPlace path ≠ w.fileOf e.1 e.2) {c : Bytes}
    (hc : w.tree.content w.workingPlace path = .ok c) :
    w'.tree.content w'.workingPlace path = .ok c := by
  obtain ⟨p, hresolve⟩ := (Tree.content_eq_ok_iff hstill).1 hc
  obtain ⟨rfl, hget⟩ := Tree.resolve_eq_ok hresolve
  refine (Tree.content_eq_ok_iff h.isStill).2 ⟨Tree.placeOf w.workingPlace path, ?_⟩
  rw [h.resolve hslash hresolve, h.get?_eq _ hplace, hget]

end World

/-! ## Flags of the kernel -/

section Flags

variable {k : Kernel.Interface} {w w' : World} {submodule file flag : String}

/-- A flag is the text of a file, without the blanks around it. -/
theorem Kernel.Interface.readFlag_eq_ok :
    (w.run (k.readFlag submodule file)).1 = .ok flag ↔ ∃ c text,
      w.tree.content w.workingPlace (k.path submodule file) = .ok c ∧
        c.toString? = some text ∧ Text.trim text = flag := by
  unfold Kernel.Interface.readFlag
  rw [World.run_bind, World.run_readText]
  unfold Tree.content
  cases w.tree.read w.workingPlace (k.path submodule file) with
  | error fault => simp [Except.map]
  | ok found =>
    obtain ⟨c, tree⟩ := found
    cases htext : c.toString? with
    | none => simp [Except.map, htext]
    | some text =>
      dsimp only
      rw [htext]
      constructor
      · intro h
        exact ⟨c, text, rfl, htext, Except.ok.inj h⟩
      · rintro ⟨c', text', hc, htext', rfl⟩
        obtain rfl := Except.ok.inj hc
        obtain rfl := Option.some.inj (htext.symm.trans htext')
        rfl

theorem Kernel.Interface.endsInSlash_path (k : Kernel.Interface) (hf : Path.IsFileName file) :
    (k.path submodule file).endsInSlash = false := Path.endsInSlash_join _ hf

theorem World.Refills.readFlag (h : w.Refills w') (hstill : w.tree.IsStill) (hk : k.Reaches w)
    (hs : Path.IsName submodule) (hf : Path.IsFileName file)
    (hfile : (submodule, file) ∉ World.loadedFiles)
    (hflag : (w.run (k.readFlag submodule file)).1 = .ok flag) :
    (w'.run (k.readFlag submodule file)).1 = .ok flag := by
  obtain ⟨c, text, hc, htext, htrim⟩ := Kernel.Interface.readFlag_eq_ok.1 hflag
  refine Kernel.Interface.readFlag_eq_ok.2 ⟨c, text, ?_, htext, htrim⟩
  have hplace := hk.placeOf_path hs hf.toIsName
  refine h.content_eq_ok hstill (k.endsInSlash_path hf) (fun e he hsame => ?_) hc
  rw [hplace] at hsame
  rw [World.fileOf_inj hsame] at hfile
  exact hfile he

end Flags

/-! ## Images -/

def World.inspection (w : World) (path : Path) : Image.Inspection :=
  match w.tree.at? w.workingPlace path with
  | some (.file c) => .ofBytes c
  | _ => .unknown

theorem World.inspectFile_eq (w : World) (path : Path) :
    (Loader.inspectFile path : StateM World Image.Inspection) w = (w.inspection path, w) := by
  unfold Loader.inspectFile inspection
  rw [bind_eq]
  cases hat : w.tree.at? w.workingPlace path with
  | none => simp [Host.isFile, hat, pure_eq]
  | some node =>
    cases node with
    | directory => simp [Host.isFile, hat, pure_eq]
    | changing first later => simp [Host.isFile, hat, pure_eq]
    | file c =>
      have hread : (Host.readFile path : StateM World _) w = (.ok c, w) := by
        rw [readFile_eq, Tree.read_of_resolve (Tree.at?_eq_some_iff.1 hat)]
      simp [Host.isFile, hat, bind_eq, hread, pure_eq]

theorem World.inspectFiles_eq (w : World) (paths : List Path) :
    (Loader.inspectFiles paths : StateM World Image.Inspector) w =
      (fun path => if path ∈ paths then w.inspection path else .unknown, w) := by
  have hmapM : ∀ paths : List Path,
      (paths.mapM (fun path => return (path, ← Loader.inspectFile path)) :
        StateM World (List (Path × Image.Inspection))) w =
          (paths.map fun path => (path, w.inspection path), w) := by
    intro paths
    induction paths with
    | nil => rfl
    | cons path rest ih =>
      rw [List.mapM_cons]
      simp only [bind_eq, w.inspectFile_eq, pure_eq] at ih ⊢
      simp only [ih, List.map_cons]
  have hlookup : ∀ (paths : List Path) (path : Path),
      ((paths.map fun path => (path, w.inspection path)).lookup path).getD .unknown =
        if path ∈ paths then w.inspection path else .unknown := by
    intro paths path
    induction paths with
    | nil => rfl
    | cons p rest ih =>
      rw [List.map_cons, List.lookup_cons]
      by_cases hp : path = p
      · subst hp
        simp
      · have hne : (path == p) = false := by simpa using hp
        simpa [hne, hp] using ih
  unfold Loader.inspectFiles
  rw [bind_eq, hmapM, pure_eq]
  simp only [hlookup, List.mem_eraseDups]

/-- An image is the same one as before, if there is one at all and no file has become one. -/
theorem World.traits_of_image {w w' : World} (hplace : w'.workingPlace = w.workingPlace)
    (hdirs : w.tree.SameDirectories w'.tree)
    (himage : ∀ q c, w'.tree.get? q = some (.file c) → c.head? = some 0x7f →
      w.tree.get? q = some (.file c)) (path : Path) :
    (w'.inspection path).traits? = none ∨
      (w'.inspection path).traits? = (w.inspection path).traits? := by
  unfold World.inspection
  cases hat : w'.tree.at? w'.workingPlace path with
  | none => exact .inl rfl
  | some node =>
    cases node with
    | directory => exact .inl rfl
    | changing first later => exact .inl rfl
    | file c =>
      by_cases hc : c.head? = some 0x7f
      · have hresolve := Tree.at?_eq_some_iff.1 hat
        have hget := (Tree.resolve_eq_ok hresolve).2.symm
        have hslash : path.endsInSlash = false := by
          cases hends : path.endsInSlash with
          | false => rfl
          | true =>
            rcases (Tree.resolve_eq_ok_iff.1 hresolve).2.2.2 hends with h | h <;> cases h
        have hagain := Tree.resolve_of_sameDirectories hdirs.symm hslash hresolve
        rw [himage _ _ hget hc, hplace] at hagain
        rw [Tree.at?_eq_some_iff.2 hagain]
        exact .inr rfl
      · exact .inl (Image.Inspection.traits?_ofBytes hc)

theorem World.Spares.traits {w w' : World} (h : w.Spares w') (path : Path) :
    (w'.inspection path).traits? = none ∨
      (w'.inspection path).traits? = (w.inspection path).traits? :=
  traits_of_image h.workingPlace h.sameDirectories h.image path

/-! ## What a loader reads -/

theorem World.tryReadText_fst (w : World) (path : Path) :
    ((Task.tryReadText path : StateM World _) w).1 =
      match w.tree.content w.workingPlace path with
      | .error fault => .error fault
      | .ok c =>
        match c.toString? with
        | some text => .ok text
        | none => .error .notText := by
  unfold Tree.content
  rw [tryReadText_eq]
  cases w.tree.read w.workingPlace path with
  | error fault => rfl
  | ok found => rfl

namespace Loader

variable {l : Loader} {w w' : World}

theorem ensureUnlocked_eq_ok : (w.run l.ensureUnlocked).1 = .ok () ↔
    w.tree.at? w.workingPlace (l.kernel.directory Kernel.mainDirectory) = some .directory ∧
      ∃ flag, (w.run (l.kernel.readFlag Kernel.mainDirectory "locked")).1 = .ok flag ∧
        flag ≠ "1" := by
  have havailable : w.run (ExceptT.lift l.kernel.isAvailable) = (.ok (decide (w.tree.at?
      w.workingPlace (l.kernel.directory Kernel.mainDirectory) = some .directory)), w) := rfl
  unfold ensureUnlocked ensureAvailable
  rw [World.run_bind, World.run_bind, havailable]
  dsimp only
  cases hdir : decide (w.tree.at? w.workingPlace (l.kernel.directory Kernel.mainDirectory) =
      some .directory) with
  | false =>
    refine iff_of_false (fun h => nomatch h) fun h => ?_
    exact of_decide_eq_false hdir h.1
  | true =>
    have hpass : w.run (if (!true) = true then throw (.unavailable l.kernel.root) else pure () :
        Task (StateM World) Unit) = (.ok (), w) := rfl
    rw [hpass]
    dsimp only
    unfold Kernel.Interface.isLocked Kernel.Interface.readSwitch
    rw [World.run_bind, World.run_bind, and_iff_right (of_decide_eq_true hdir)]
    cases w.run (l.kernel.readFlag Kernel.mainDirectory "locked") with
    | mk r w₁ =>
      cases r with
      | error e => simp
      | ok flag =>
        by_cases hflag : flag = "1"
        · subst hflag
          refine iff_of_false (fun h => nomatch h) ?_
          rintro ⟨flag, hflag, hne⟩
          exact hne (Except.ok.inj hflag).symm
        · simp only [hflag]
          exact iff_of_true rfl ⟨flag, rfl, hflag⟩

theorem readOptions_congr {directory : Path}
    (h : w.tree.content w.workingPlace (directory.join Config.mainFile) =
      w'.tree.content w'.workingPlace (directory.join Config.mainFile)) :
    (w.run (Config.readOptions directory)).1 = (w'.run (Config.readOptions directory)).1 := by
  unfold Config.readOptions
  dsimp only
  rw [World.run_bind_of_ok World.run_lift, World.run_bind_of_ok World.run_lift]
  rw [World.tryReadText_fst, World.tryReadText_fst, h]
  split
  · split <;> rfl
  · rfl
  · rfl

/-- What a loader knows about the images at the given paths. -/
def knows (l : Loader) (w : World) (paths : List Path) : Image.Inspector :=
  match l.images with
  | .files => fun path => if path ∈ paths then w.inspection path else .unknown
  | .known inspector => inspector

theorem inspector_eq (l : Loader) (w : World) (paths : List Path) :
    (l.inspector paths : StateM World Image.Inspector) w = (l.knows w paths, w) := by
  unfold inspector knows
  cases l.images with
  | files => exact w.inspectFiles_eq paths
  | known inspector => rfl

theorem knows_congr (htree : w'.tree = w.tree) (hplace : w'.workingPlace = w.workingPlace)
    (paths : List Path) : l.knows w' paths = l.knows w paths := by
  unfold knows World.inspection
  rw [htree, hplace]

theorem run_features : ∃ features, w.run (l.features .protection Kernel.Features.empty) =
      (.ok features, (w.run (l.kernel.readFlag Protection.name Protection.emutrampFeature)).2) ∧
    (features.enabled Protection.name Protection.emutrampFeature = true ↔ ∃ value,
      (w.run (l.kernel.readFlag Protection.name Protection.emutrampFeature)).1 = .ok value ∧
        value ≠ "0") := by
  have hunknown : (Submodule.protection.policyFeatures.filter fun name =>
      (Kernel.Features.empty.get? Submodule.protection.name name).isNone) =
        [Protection.emutrampFeature] := rfl
  unfold features Kernel.Interface.features
  rw [hunknown]
  dsimp only
  rw [List.foldlM_cons]
  simp only [List.foldlM_nil, World.run_bind, World.run_attempt]
  have hname : Submodule.protection.name = Protection.name := rfl
  rw [hname]
  cases w.run (l.kernel.readFlag Protection.name Protection.emutrampFeature) with
  | mk r w₁ =>
    cases r with
    | error e => exact ⟨_, rfl, iff_of_false (by decide) fun ⟨_, h, _⟩ => nomatch h⟩
    | ok value =>
      refine ⟨_, rfl, ?_⟩
      have henabled : (Kernel.Features.empty.layer (Kernel.Features.empty.set Protection.name
          Protection.emutrampFeature value)).enabled Protection.name Protection.emutrampFeature =
            decide (value ≠ "0") := by
        simp [Kernel.Features.enabled, Kernel.Features.layer, Kernel.Features.set,
          Kernel.Features.empty]
      rw [henabled]
      simp

theorem run_context_of_features {features overrides : Kernel.Features}
    (h : w.run (l.features .protection overrides) = (.ok features, w'))
    (lines : List (List String)) (options : Options) (strictness : Strictness) :
    w.run (l.context .protection lines options overrides strictness) =
      (.ok ⟨options, features, l.knows w' (lines.flatMap Submodule.protection.consulted),
        strictness⟩, w') := by
  unfold context
  rw [World.run_bind_of_ok h, World.run_bind_of_ok World.run_lift, inspector_eq]
  rfl

/-- What a loader reads of the context of lines. -/
theorem run_context (hk : l.kernel.Reaches w) (hstill : w.tree.IsStill)
    (lines : List (List String)) (options : Options) (strictness : Strictness) : ∃ features,
    (w.run (l.context .protection lines options Kernel.Features.empty strictness)).1 =
      .ok ⟨options, features, l.knows w (lines.flatMap Submodule.protection.consulted),
        strictness⟩ ∧
    (features.enabled Protection.name Protection.emutrampFeature = true ↔ ∃ value,
      (w.run (l.kernel.readFlag Protection.name Protection.emutrampFeature)).1 = .ok value ∧
        value ≠ "0") := by
  obtain ⟨features, hfeatures, henabled⟩ := @run_features l w
  refine ⟨features, ?_, henabled⟩
  -- Reading the flag changes nothing that an inspection could find.
  have hrests : w.Rests (w.run
      (l.kernel.readFlag Protection.name Protection.emutrampFeature)).2 :=
    Moves.readFlag l.kernel Protection.name Protection.emutrampFeature w hk
  rw [run_context_of_features hfeatures, knows_congr (hrests.tree hstill) hrests.workingPlace]

theorem run_reportAll (w : World) (es : List Event) :
    ∃ events, w.run (Task.reportAll es) = (.ok (), { w with events := events }) := by
  induction es generalizing w with
  | nil => exact ⟨w.events, rfl⟩
  | cons e rest ih => exact ih { w with events := e :: w.events }

/-- What lines give is decided by their context. -/
theorem run_compileLines {lines : List Config.Line} {options : Options}
    {overrides : Kernel.Features} {ctx : Context} (h : w.run (l.context .protection
      (lines.map (·.tokens)) options overrides l.strictness) = (.ok ctx, w')) :
    ∃ events, w.run (l.compileLines .protection lines options overrides) =
      ((Protection.compile lines ctx).result.mapError .config, { w' with events := events }) := by
  obtain ⟨events, hevents⟩ := run_reportAll w' (Protection.compile lines ctx).events
  refine ⟨events, ?_⟩
  unfold compileLines
  rw [World.run_bind_of_ok h]
  have hcompile : Submodule.protection.compile lines ctx = Protection.compile lines ctx := rfl
  dsimp only
  rw [hcompile, World.run_bind_of_ok hevents]
  cases (Protection.compile lines ctx).result <;> rfl

/-! ## What a load has read -/

/-- The way to the options does not lead through files that a load writes. -/
def IsApart (l : Loader) (w : World) : Prop :=
  ∀ e ∈ World.loadedFiles, w.fileOf e.1 e.2 ∉ Tree.passed
    (Tree.origin w.workingPlace (l.configDirectory.join Config.mainFile))
    (l.configDirectory.join Config.mainFile).steps

instance (l : Loader) (w : World) : Decidable (l.IsApart w) :=
  inferInstanceAs (Decidable (∀ e ∈ World.loadedFiles, _))

/-- What a load reads besides the lines is read again, and no less is allowed by it. -/
structure ReadsAgain (l : Loader) (m : Making) (w : World) : Prop where
  unlocked : (w.run l.ensureUnlocked).1 = .ok ()
  options : (w.run l.options).1 = .ok m.ctx.options
  context : ∀ lines : List Config.Line,
    (∀ line ∈ lines, ∃ first ∈ m.lines, line.tokens.head? = first.tokens.head?) →
      ∃ ctx, (w.run (l.context .protection (lines.map (·.tokens)) m.ctx.options
        Kernel.Features.empty l.strictness)).1 = .ok ctx ∧
          (Protection.Reader.ofContext ctx).Allows (Protection.Reader.ofContext m.ctx)

theorem ensureUnlocked_again (hk : l.kernel.Reaches w) (hstill : w.tree.IsStill)
    (hs : w.Refills w') (h : (w.run l.ensureUnlocked).1 = .ok ()) :
    (w'.run l.ensureUnlocked).1 = .ok () := by
  obtain ⟨hdir, flag, hflag, hne⟩ := ensureUnlocked_eq_ok.1 h
  refine ensureUnlocked_eq_ok.2 ⟨hs.at?_eq_directory ?_ hdir, flag, ?_, hne⟩
  · exact Path.endsInSlash_join _ (by decide)
  · exact hs.readFlag hstill hk (by decide) (by decide) (by decide) hflag

theorem options_again (hs : w.Spares w') (hapart : l.IsApart w) :
    (w'.run l.options).1 = (w.run l.options).1 := by
  refine (readOptions_congr ?_).symm
  rw [hs.workingPlace]
  refine (Tree.content_congr (Tree.resolve_congr fun q hq => ?_)).symm
  exact (hs.get?_eq q fun e he heq => hapart e he (heq ▸ hq)).symm

/-- Whoever reads again knows no more about images. -/
theorem knows_again (l : Loader) (himage : ∀ path, (w'.inspection path).traits? = none ∨
      (w'.inspection path).traits? = (w.inspection path).traits?) {paths paths' : List Path}
    (hpaths : paths' ⊆ paths) (path : Path) : (l.knows w' paths' path).traits? = none ∨
      (l.knows w' paths' path).traits? = (l.knows w paths path).traits? := by
  unfold knows
  cases l.images with
  | known inspector => exact .inr rfl
  | files =>
    dsimp only
    by_cases hmem : path ∈ paths'
    · rw [if_pos hmem, if_pos (hpaths hmem)]
      exact himage path
    · rw [if_neg hmem]
      exact .inl rfl

theorem consulted_of_head? {tokens tokens' : List String} (h : tokens.head? = tokens'.head?) :
    Submodule.protection.consulted tokens = Submodule.protection.consulted tokens' := by
  unfold Submodule.consulted
  rw [h]

/-- A context that is read again allows as much. -/
theorem context_again (hk : l.kernel.Reaches w) (hstill : w.tree.IsStill) (hs : w.Spares w')
    {lines lines' : List Config.Line}
    (hlines : ∀ line ∈ lines', ∃ first ∈ lines, line.tokens.head? = first.tokens.head?)
    {options : Options} {ctx : Context}
    (h : (w.run (l.context .protection (lines.map (·.tokens)) options Kernel.Features.empty
      l.strictness)).1 = .ok ctx) :
    ∃ ctx', (w'.run (l.context .protection (lines'.map (·.tokens)) options Kernel.Features.empty
        l.strictness)).1 = .ok ctx' ∧
      (Protection.Reader.ofContext ctx').Allows (Protection.Reader.ofContext ctx) := by
  obtain ⟨features, hctx, henabled⟩ := run_context hk hstill (lines.map (·.tokens)) options
    l.strictness
  obtain ⟨features', hctx', henabled'⟩ := run_context (hk.same hs.toSamePlaces) hs.isStill
    (lines'.map (·.tokens)) options l.strictness
  obtain rfl := Except.ok.inj (h.symm.trans hctx)
  refine ⟨_, hctx', rfl, fun havailable => ?_, knows_again l hs.traits ?_⟩
  · obtain ⟨value, hvalue, hne⟩ := henabled.1 havailable
    exact henabled'.2
      ⟨value, hs.readFlag hstill hk (by decide) (by decide) (by decide) hvalue, hne⟩
  · intro path hpath
    obtain ⟨tokens', htokens', hpath⟩ := List.mem_flatMap.1 hpath
    obtain ⟨line, hline, rfl⟩ := List.mem_map.1 htokens'
    obtain ⟨first, hfirst, hhead⟩ := hlines line hline
    exact List.mem_flatMap.2 ⟨first.tokens, List.mem_map_of_mem hfirst,
      consulted_of_head? hhead ▸ hpath⟩

theorem Makes.readsAgain {m : Making} (h : l.Makes w m) (hk : l.kernel.Reaches w)
    (hstill : w.tree.IsStill) (hapart : l.IsApart w) (hs : w.Spares w') : l.ReadsAgain m w' := by
  have hrun : w.run l.survey = (.ok (m.lines, m.ctx), (w.run l.survey).2) := Prod.ext h rfl
  obtain ⟨_, w₁, hunlocked, hrun⟩ := World.run_bind_ok hrun
  obtain ⟨options, w₂, hoptions, hrun⟩ := World.run_bind_ok hrun
  obtain ⟨present, w₃, hpresent, hrun⟩ := World.run_bind_ok hrun
  obtain ⟨lines, w₄, hlines, hrun⟩ := World.run_bind_ok hrun
  obtain ⟨ctx, w₅, hctx, hrun⟩ := World.run_bind_ok hrun
  obtain ⟨rfl, rfl⟩ := Prod.mk.inj (Except.ok.inj (Prod.mk.inj hrun).1)
  -- Nothing of this changes the files.
  obtain ⟨r₁, hk₁⟩ := (Moves.ensureUnlocked l).of_run (R := World.Rests) hk hunlocked
  obtain ⟨r₂, hk₂⟩ := (Moves.readOptions _).of_run (R := World.Rests) hk₁ hoptions
  obtain ⟨r₃, hk₃⟩ := (Moves.run_lift (.submodules l)).of_run (R := World.Rests) hk₂ hpresent
  obtain ⟨r₄, hk₄⟩ := (Moves.readRuleLines _ _).of_run (R := World.Rests) hk₃ hlines
  have htrans := @AllowsReading.trans World.Rests _
  have hrests := htrans (htrans (htrans r₁ r₂) r₃) r₄
  have hspares := r₁.spares hstill
  obtain rfl := options_of_context hctx
  refine ⟨ensureUnlocked_again hk hstill hs.toRefills (congrArg Prod.fst hunlocked), ?_,
    fun lines hheads => ?_⟩
  · rw [options_again hs hapart, ← options_again hspares hapart]
    exact congrArg Prod.fst hoptions
  · exact context_again hk₄ (hrests.spares hstill).isStill (hs.from_rests hrests hstill) hheads
      (congrArg Prod.fst hctx)

end Loader

end PathPolicy
