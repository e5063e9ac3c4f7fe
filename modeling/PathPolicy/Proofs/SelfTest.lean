import PathPolicy.Loader.RoundTrip
import PathPolicy.Proofs.Histories
import PathPolicy.Proofs.SecondReadings

/-!
# Testing what was loaded

A policy that a load has loaded stands: the kernel has it, and what it was made of is read again
(`Loader.Stands`). Every step of the test comes to an end in such a world and leaves it one, so the
test passes, as long as the paths of the policy are written without quotes (`Loader.load_selfTest`).
This is needed because its lines are written as a text without quotes: a path with a blank is enough
for the test to fail.
-/

namespace PathPolicy

open Files (Path Place Tree)

/-! ## What the kernel takes -/

section Takes

variable {k : Kernel.Interface} {w w' : World} {p : Policy}

/-- The file that takes a policy can be written. -/
def Kernel.Interface.Takes (k : Kernel.Interface) (w : World) : Prop :=
  ∃ node, w.tree.resolve w.workingPlace (k.path Protection.name Kernel.loadFile) =
    .ok (w.fileOf Protection.name Kernel.loadFile, node) ∧ node ≠ some .directory

theorem Kernel.Interface.Reaches.run_load (hk : k.Reaches w) {blob : Bytes} :
    w.run (k.load Protection.name blob) = (.ok (), w') ↔ k.Takes w ∧
      w' = (w.putFile (w.fileOf Protection.name Kernel.loadFile) blob).react
        (w.fileOf Protection.name Kernel.loadFile) blob := by
  have hplace := hk.placeOf_path (show Path.IsName Protection.name by decide)
    (show Path.IsName Kernel.loadFile by decide)
  have hslash : (k.path Protection.name Kernel.loadFile).endsInSlash = false :=
    k.endsInSlash_path (by decide)
  unfold Kernel.Interface.load Task.writeBytes
  rw [World.run_access, World.writeFile_eq]
  cases hwrite : w.tree.write w.workingPlace (k.path Protection.name Kernel.loadFile) blob with
  | error fault =>
    refine iff_of_false (fun h => nomatch h) ?_
    rintro ⟨⟨node, hresolve, hnode⟩, -⟩
    rw [Tree.write_eq_ok_iff.2 ⟨hslash, ⟨node, hresolve, hnode⟩, rfl⟩] at hwrite
    cases hwrite
  | ok found =>
    obtain ⟨place, tree⟩ := found
    obtain ⟨-, ⟨node, hresolve, hnode⟩, rfl⟩ := Tree.write_eq_ok_iff.1 hwrite
    obtain ⟨rfl, -⟩ := Tree.resolve_eq_ok hresolve
    rw [hplace] at hresolve ⊢
    refine ⟨fun h => ⟨⟨node, hresolve, hnode⟩, (Prod.mk.inj h).2.symm⟩, ?_⟩
    rintro ⟨-, rfl⟩
    rfl

theorem Kernel.Interface.Takes.of_sameDirectories (h : k.Takes w) (hsame : w.SamePlaces w')
    (hdirs : w.tree.SameDirectories w'.tree) : k.Takes w' := by
  obtain ⟨node, hresolve, hnode⟩ := h
  refine ⟨w'.tree.get? (w.fileOf Protection.name Kernel.loadFile), ?_, fun hdir => ?_⟩
  · rw [hsame.fileOf, hsame.workingPlace]
    exact Tree.resolve_of_sameDirectories hdirs (k.endsInSlash_path (by decide)) hresolve
  · exact hnode ((Tree.resolve_eq_ok hresolve).2.trans ((hdirs _).2 hdir))

theorem Kernel.Interface.Takes.of_spares (h : k.Takes w) (hs : w.Spares w') : k.Takes w' :=
  h.of_sameDirectories hs.toSamePlaces hs.sameDirectories

/-- The files in which the kernel gives account can be read where policies can be written. -/
theorem Kernel.Interface.Takes.content (h : k.Takes w) (hk : k.Reaches w) (hstill : w.tree.IsStill)
    {file : String} (hfile : file ∈ World.account) {c : Bytes}
    (hheld : w.held file = some (.file c)) :
    w.tree.content w.workingPlace (k.path Protection.name file) = .ok c := by
  have hnames : ∀ file ∈ World.account,
      Path.IsFileName file ∧ file.utf8ByteSize ≤ Kernel.loadFile.utf8ByteSize := by decide
  obtain ⟨hname, hsize⟩ := hnames file hfile
  obtain ⟨node, hresolve, -⟩ := h
  have hsibling := Tree.resolve_sibling (k.directory Protection.name) (by decide) hname hsize
    hresolve
  have hplace := hk.placeOf_path (show Path.IsName Protection.name by decide) hname.toIsName
  unfold Kernel.Interface.path at hplace
  rw [hplace, show w.tree.get? (w.fileOf Protection.name file) = _ from hheld] at hsibling
  exact (Tree.content_eq_ok_iff hstill).2 ⟨_, hsibling⟩

theorem World.Has.hasAccountFiles (h : w.Has p) : w.HasAccountFiles := by
  intro file hfile hdir
  simp only [World.account, List.mem_cons, List.not_mem_nil, or_false] at hfile
  rcases hfile with rfl | rfl
  · rw [h.digest] at hdir
    cases hdir
  · rw [h.dump] at hdir
    cases hdir

theorem World.has_react (hw : w.behaviour = .loading) (htaken : p.IsTaken) :
    (w.react (w.fileOf Protection.name Kernel.loadFile) p.binary).Has p := by
  obtain ⟨rules, hdecode⟩ := htaken
  unfold World.react
  simp only [hw, if_true]
  cases hadopt : w.adopt p.binary with
  | error fault => simp [World.adopt, hdecode, bind, Except.bind, pure, Except.pure] at hadopt
  | ok found =>
    obtain ⟨d, w'⟩ := found
    obtain ⟨has, -, rules', hdecode'⟩ := World.has_of_adopt hadopt p.text
    obtain rfl : d = p.digest := (Prod.mk.inj (Except.ok.inj (hdecode'.symm.trans hdecode))).1
    exact has

/-- A policy that was written is the one that the kernel has. -/
theorem Kernel.Interface.Reaches.has_of_load (hk : k.Reaches w) (htaken : p.IsTaken)
    (h : w.run (k.load Protection.name p.binary) = (.ok (), w')) : w'.Has p := by
  obtain ⟨-, rfl⟩ := hk.run_load.1 h
  exact World.has_react (w := w.putFile _ _) hk.behaviour htaken

/-- The digest of the policy that was loaded is read back, and so is the policy. -/
theorem Kernel.Interface.Takes.readFlag (h : k.Takes w) (hk : k.Reaches w)
    (hstill : w.tree.IsStill) (has : w.Has p) :
    (w.run (k.readFlag Protection.name Kernel.digestFile)).1 = .ok p.digest.hex :=
  Kernel.Interface.readFlag_eq_ok.2 ⟨_, _, h.content hk hstill (by decide) has.digest,
    Bytes.toString?_ofString _, p.digest.trim_hex⟩

theorem Kernel.Interface.Takes.dump (h : k.Takes w) (hk : k.Reaches w) (hstill : w.tree.IsStill)
    (has : w.Has p) : (w.run (k.dump Protection.name)).1 = .ok p.binary := by
  have hc := h.content hk hstill (by decide) has.dump
  unfold Tree.content at hc
  unfold Kernel.Interface.dump Task.readBytes
  rw [World.run_access, World.readFile_eq]
  cases hread : w.tree.read w.workingPlace (k.path Protection.name Kernel.dumpFile) with
  | error fault =>
    rw [hread] at hc
    cases hc
  | ok found =>
    obtain ⟨c, tree⟩ := found
    rw [hread] at hc
    exact congrArg Except.ok (Except.ok.inj hc)

end Takes

/-! ## Programs that come to an end -/

/-- In a world with the invariant, a program comes to an end with a result of this kind, and the
invariant holds after it. -/
def World.Yields {α : Type} (I : World → Prop) (t : Task (StateM World) α) (P : α → Prop) : Prop :=
  ∀ w, I w → ∃ a w', w.run t = (.ok a, w') ∧ P a ∧ I w'

namespace World.Yields

variable {α β : Type} {I : World → Prop} {t : Task (StateM World) α}
  {f : α → Task (StateM World) β} {P : α → Prop} {Q : β → Prop}

protected theorem bind (ht : Yields I t P) (hf : ∀ a, P a → Yields I (f a) Q) :
    Yields I (t >>= f) Q := by
  intro w hw
  obtain ⟨a, w₁, hrun, ha, hw₁⟩ := ht w hw
  rw [World.run_bind_of_ok hrun]
  exact hf a ha w₁ hw₁

protected theorem pure {a : α} (ha : P a) : Yields I (pure a : Task (StateM World) α) P :=
  fun w hw => ⟨a, w, rfl, ha, hw⟩

end World.Yields

/-! ## The steps of the test -/

namespace Loader

/-- The kernel has the policy that was made in a world, and nothing else has happened to the files
but what a load does. -/
structure Stands (l : Loader) (w : World) (m : Making) (w' : World) : Prop where
  spares : w.Spares w'
  has : w'.Has m.policy
  reaches : l.kernel.Reaches w'
  takes : l.kernel.Takes w'

variable {l : Loader} {w w' : World} {m : Making} {told : List Config.Line}

theorem Stands.rests (h : l.Stands w m w') {w'' : World} (hr : w'.Rests w'') :
    l.Stands w m w'' := by
  have hs := hr.spares h.spares.isStill
  exact ⟨h.spares.trans hs, h.has.keeps (hr.keeps h.spares.isStill),
    h.reaches.same hr.toSamePlaces, h.takes.of_spares hs⟩

/-- Reading does not disturb the policy. -/
theorem yields_of_moves {α : Type} {t : Task (StateM World) α} {P : α → Prop}
    (ht : Moves l.kernel.Reaches World.Rests t.run)
    (hvalue : ∀ w', l.Stands w m w' → ∃ a, (w'.run t).1 = .ok a ∧ P a) :
    World.Yields (l.Stands w m) t P := by
  intro w' h
  obtain ⟨a, ha, hP⟩ := hvalue w' h
  exact ⟨a, (w'.run t).2, Prod.ext ha rfl, hP, h.rests (ht w' h.reaches)⟩

theorem yields_report (e : Event) : World.Yields (l.Stands w m) (Task.report e) fun _ => True :=
  yields_of_moves (.run_report e) fun _ _ => ⟨(), rfl, trivial⟩

theorem yields_reportAll (es : List Event) :
    World.Yields (l.Stands w m) (Task.reportAll es) fun _ => True := by
  unfold Task.reportAll
  induction es with
  | nil => exact .pure trivial
  | cons e rest ih => exact (yields_report e).bind fun _ _ => ih

theorem yields_digest : World.Yields (l.Stands w m)
    (l.kernel.readFlag Protection.name Kernel.digestFile) (· = m.policy.digest.hex) :=
  yields_of_moves (.readFlag _ _ _) fun _ h =>
    ⟨_, h.takes.readFlag h.reaches h.spares.isStill h.has, rfl⟩

theorem yields_dump : World.Yields (l.Stands w m) (l.kernel.dump Protection.name)
    (· = m.policy.binary) :=
  yields_of_moves (.run_access (.readFile _)) fun _ h =>
    ⟨_, h.takes.dump h.reaches h.spares.isStill h.has, rfl⟩

theorem yields_load (htaken : m.policy.IsTaken) :
    World.Yields (l.Stands w m) (l.kernel.load Protection.name m.policy.binary) fun _ => True := by
  intro w' h
  have hrun : w'.run (l.kernel.load Protection.name m.policy.binary) = (.ok (), _) :=
    h.reaches.run_load.2 ⟨h.takes, rfl⟩
  obtain ⟨hwrites, hreaches⟩ := (Moves.run_load (p := m.policy) htaken.head?_ne).of_run
    (R := World.Writes World.loadedFiles) h.reaches hrun
  have hs := hwrites.spares h.spares.isStill h.has.hasAccountFiles
  exact ⟨(), _, hrun, trivial, h.spares.trans hs, h.reaches.has_of_load htaken hrun, hreaches,
    h.takes.of_spares hs⟩

theorem yields_reload (htaken : m.policy.IsTaken) : World.Yields (l.Stands w m)
    (l.reload .protection m.policy.digest.hex m.policy.binary) (· = m.policy.binary) := by
  refine (yields_load htaken).bind fun _ _ => yields_digest.bind fun after hafter => ?_
  subst hafter
  rw [if_neg (by simp)]
  refine yields_dump.bind fun reloaded hreloaded => ?_
  subst hreloaded
  dsimp only
  rw [if_neg (by simp)]
  exact .pure rfl

theorem yields_decompile {sm : Submodule} {binary : Bytes} (h : sm.decompile binary = .ok told) :
    World.Yields (l.Stands w m) (decompile sm binary) (· = told) := by
  unfold decompile
  rw [h]
  exact .pure rfl

section Again

variable (hagain : ∀ w', w.Spares w' → l.ReadsAgain m w')
  (hre : Protection.Reproduces testSource m.lines m.ctx m.policy told)

include hagain hre

/-- The lines that are told give a policy that tells the same. -/
theorem yields_compileLines : World.Yields (l.Stands w m)
    (l.compileLines .protection (Config.read testSource (Config.textOf told)).lines m.ctx.options
      Kernel.Features.empty) fun p => Protection.decompile p.binary = .ok told := by
  unfold compileLines
  refine .bind (P := fun ctx =>
    (Protection.Reader.ofContext ctx).Allows (Protection.Reader.ofContext m.ctx)) ?_ ?_
  · exact yields_of_moves (.context l _ _ _ _ _) fun w' h =>
      (hagain w' h.spares).context _ hre.heads
  · intro ctx hallows
    obtain ⟨p, hp, -, hsame⟩ := hre.again ctx hallows
    have hresult : (Submodule.protection.compile
      (Config.read testSource (Config.textOf told)).lines ctx).result = .ok p := hp
    refine (yields_reportAll _).bind fun _ _ => ?_
    rw [hresult]
    exact .pure hsame

theorem yields_recompile : World.Yields (l.Stands w m)
    (l.recompile m.ctx.options .protection m.policy.binary) fun _ => True := by
  unfold recompile
  refine (yields_decompile hre.decompile).bind fun lines hlines => ?_
  subst hlines
  refine (yields_reportAll _).bind fun _ _ => ?_
  refine (yields_compileLines hagain hre).bind fun p hp => ?_
  refine (yields_decompile hp).bind fun lines' hlines' => ?_
  subst hlines'
  rw [if_neg (by simp)]
  exact .pure trivial

theorem yields_testSubmodule (htaken : m.policy.IsTaken)
    (hdigest : m.policy.digest ≠ Digest.replicate 0) :
    World.Yields (l.Stands w m) (l.testSubmodule m.ctx.options .protection) fun _ => True := by
  have hloaded : decide (m.policy.digest.hex ≠ Digest.notLoaded) = true :=
    decide_eq_true fun hhex => hdigest (Digest.hex_inj hhex)
  have hdump : m.policy.binary.isEmpty = false := by
    cases hbinary : m.policy.binary with
    | nil => simpa [hbinary] using htaken.head?
    | cons b rest => rfl
  unfold testSubmodule
  refine yields_digest.bind fun digest hdigest' => ?_
  subst hdigest'
  refine yields_dump.bind fun dump hdump' => ?_
  subst hdump'
  rw [hloaded, hdump]
  dsimp only
  rw [if_neg (by simp), if_pos rfl]
  refine (yields_reload htaken).bind fun reloaded hreloaded => ?_
  subst hreloaded
  exact (yields_recompile hagain hre).bind fun _ _ => yields_report _

theorem yields_selfTest (htaken : m.policy.IsTaken)
    (hdigest : m.policy.digest ≠ Digest.replicate 0) :
    World.Yields (l.Stands w m) l.selfTest fun _ => True := by
  unfold selfTest
  refine (yields_of_moves (P := fun _ => True) (.ensureUnlocked l) fun w' h =>
    ⟨(), (hagain w' h.spares).unlocked, trivial⟩).bind fun _ _ => ?_
  refine (yields_of_moves (P := (· = m.ctx.options)) (.readOptions _) fun w' h =>
    ⟨_, (hagain w' h.spares).options, rfl⟩).bind fun options hoptions => ?_
  subst hoptions
  refine .bind (P := fun present => present = [] ∨ present = Submodule.all) ?_ ?_
  · refine yields_of_moves (.run_lift (.submodules l)) fun w' _ => ⟨_, rfl, ?_⟩
    exact (run_submodules (l := l) (w := w') rfl).2
  · rintro present (rfl | rfl)
    · exact .pure trivial
    · exact (yields_testSubmodule hagain hre htaken hdigest).bind fun _ _ => .pure trivial

end Again

/-! ## The test after a load -/

/-- After a load the policy stands, and is the one that the load has made. -/
theorem load_stands (hk : l.kernel.Reaches w) (hstill : w.tree.IsStill)
    (haccount : w.HasAccountFiles) {force : Bool} {report : LoadReport}
    (h : w.run (l.load force) = (.ok report, w')) (hname : Protection.name ∈ report.loaded) :
    ∃ m, l.Makes w m ∧ (m.ctx.options.main.locked = false → m.policy.IsTaken →
      l.Stands w m w') := by
  obtain ⟨m, w₁, w₂, w₃, hmakes, ⟨hbefore, hk₁⟩, hload, ⟨hafter, hk₃⟩, hlock⟩ :=
    load_loaded (R := World.Writes Kernel.switchFiles) hk h hname
  refine ⟨m, hmakes, fun hlocked htaken => ?_⟩
  rw [hlocked] at hlock
  obtain rfl : w₃ = w' := (Prod.mk.inj hlock).2
  have hsubset : Kernel.switchFiles ⊆ World.loadedFiles := List.subset_append_left _ _
  have hloaded := ((Moves.run_load (p := m.policy) htaken.head?_ne).of_run
    (R := World.Writes World.loadedFiles) hk₁ hload).1
  have hs₁ := (hbefore.mono hsubset).spares hstill haccount
  have hs₃ := (((hbefore.mono hsubset).trans hloaded).trans (hafter.mono hsubset)).spares hstill
    haccount
  have htakes := (hk₁.run_load.1 hload).1.of_sameDirectories hs₁.toSamePlaces.symm
    hs₁.sameDirectories.symm
  exact ⟨hs₃, (hk₁.has_of_load htaken hload).keeps hafter.keeps, hk₃, htakes.of_spares hs₃⟩

/-- A load that reports a policy as loaded has made one, and if the kernel takes it, it is the one
that the kernel has. It passes its test if its paths are plain: neither the images and features nor
the rest of the rules can make the test fail. A digest that stands for no policy is excluded, since
the kernel then seems to have none. -/
theorem load_selfTest (hk : l.kernel.Reaches w) (hstill : w.tree.IsStill)
    (haccount : w.HasAccountFiles) (hapart : l.IsApart w) {force : Bool} {report : LoadReport}
    (h : w.run (l.load force) = (.ok report, w')) (hname : Protection.name ∈ report.loaded) :
    ∃ m, l.Makes w m ∧ (m.ctx.options.main.locked = false → m.policy.IsTaken →
      w'.Has m.policy ∧
        (m.policy.digest ≠ Digest.replicate 0 → Protection.HasPlainPaths m.lines m.ctx →
          (w'.run l.selfTest).1 = .ok ())) := by
  obtain ⟨m, hmakes, hstands⟩ := load_stands hk hstill haccount h hname
  refine ⟨m, hmakes, fun hlocked htaken => ?_⟩
  have hw' := hstands hlocked htaken
  refine ⟨hw'.has, fun hdigest hplain => ?_⟩
  obtain ⟨told, hre⟩ := Protection.compile_reread m.made htaken hplain testSource
  have hagain : ∀ w', w.Spares w' → l.ReadsAgain m w' :=
    fun _ hs => hmakes.readsAgain hk hstill hapart hs
  obtain ⟨_, w'', hrun, -, -⟩ := yields_selfTest hagain hre htaken hdigest w' hw'
  rw [hrun]

theorem load_selfTest_sample :
    sampleLoader.kernel.Reaches sampleWorld ∧ sampleWorld.tree.IsStill ∧
      sampleWorld.HasAccountFiles ∧ sampleLoader.IsApart sampleWorld ∧ ∃ report w',
        sampleWorld.run (sampleLoader.load true) = (.ok report, w') ∧
          Protection.name ∈ report.loaded ∧ (w'.run sampleLoader.selfTest).1 = .ok () := by
  have hstill : sampleWorld.tree.IsStill := Tree.isStill_of_all (by decide +kernel)
  have haccount : sampleWorld.HasAccountFiles := by decide +kernel
  have hapart : sampleLoader.IsApart sampleWorld := by decide +kernel
  obtain ⟨w', hload⟩ : ∃ w', sampleWorld.run (sampleLoader.load true) =
      (.ok ⟨[Protection.name], [], []⟩, w') := World.run_of_toOption (by decide +kernel)
  have hname : Protection.name ∈ [Protection.name] := List.mem_singleton_self _
  obtain ⟨m, hmakes, hpasses⟩ :=
    load_selfTest sampleLoader_reaches hstill haccount hapart hload hname
  -- What is made there is not locked, and all of its paths are plain.
  have hmade : ((sampleWorld.run sampleLoader.survey).1.toOption.all fun read =>
      !read.2.options.main.locked && decide (read.1.length < 2 ^ 32) &&
        decide (Protection.HasPlainPaths read.1 read.2) &&
          (Protection.compile read.1 read.2).result.toOption.all fun p =>
            decide (p.digest ≠ Digest.replicate 0)) = true := by
    decide +kernel
  rw [hmakes] at hmade
  simp only [Except.toOption, Option.all_some, m.made, Bool.and_eq_true, Bool.not_eq_true',
    decide_eq_true_eq] at hmade
  obtain ⟨⟨⟨hlocked, hlen⟩, hplain⟩, hdigest⟩ := hmade
  exact ⟨sampleLoader_reaches, hstill, haccount, hapart, _, w', hload, hname,
    (hpasses hlocked (Protection.isTaken_of_compile m.made hlen)).2 hdigest hplain⟩

end Loader

/-- The kernel of the sample, and a rule for a program with a blank in its path. -/
def quotedWorld : World :=
  sampleWorld.putFile ["conf", "wxprot.conf"] (Bytes.ofString "'/a b' FULL\n")

/-- The wording of a failure, if there is one. -/
def failureOf {α : Type} : Except Failure α → Option String
  | .ok _ => none
  | .error e => some e.message

/-- A policy is loaded and does not pass its test, though nothing has changed. -/
theorem quotedWorld_not_reproduced :
    (quotedWorld.run (sampleLoader.load true)).1.toOption = some ⟨[Protection.name], [], []⟩ ∧
      failureOf ((quotedWorld.run (sampleLoader.load true)).2.run sampleLoader.selfTest).1 =
        some "WX protection configuration error at line 'custom:1': invalid flag." := by
  decide +kernel

end PathPolicy
