import PathPolicy.Proofs.Planning
import PathPolicy.Proofs.SelfTest

/-!
# What a test changes

A test may stop at many points. All that it does to files, besides reading them, is to give the
kernel back the policy that it has just read from it, once at most, and only where the kernel says
that it has one (`World.WritesBack`, `World.Reloads`). This holds on every host, whatever happens
there when a file is written (`World.Effects`). A kernel may take what it is given or refuse it
(`World.Effects.Accepts`). If it does no more than that, and says what is true of its policy, all
its files but the one that takes policies are the same after the test (`Loader.selfTest_reloads`).
-/

namespace PathPolicy

open Files (Node Path Place Tree)

/-! ## Reading -/

/-- What has become of a file that may have been read: it is another one only if it was to change
when it is read. -/
def Files.Node.Settles (n n' : Option Node) : Prop :=
  n' = n ∨ ∃ first later, n = some (.changing first later) ∧ n' = some (.file later)

section Settles

variable {n n₁ n₂ : Option Node}

theorem Files.Node.Settles.trans (h : Node.Settles n n₁) (h' : Node.Settles n₁ n₂) :
    Node.Settles n n₂ := by
  rcases h with rfl | ⟨first, later, rfl, rfl⟩
  · exact h'
  · refine .inr ⟨first, later, rfl, h'.resolve_right ?_⟩
    rintro ⟨first', later', hchanging, -⟩
    cases hchanging

theorem Files.Node.Settles.eq (h : Node.Settles n n₁)
    (hn : ∀ first later, n ≠ some (.changing first later)) : n₁ = n :=
  h.resolve_right fun ⟨first, later, hchanging, _⟩ => hn first later hchanging

end Settles

namespace World

/-- All that has happened to files is that some were read, except where it does not matter. -/
structure SettlesBut (free : Place → Prop) (w w' : World) : Prop extends SamePlaces w w' where
  nodes : ∀ q, ¬ free q → Node.Settles (w.tree.get? q) (w'.tree.get? q)

/-- All that has happened to files is that some were read. -/
abbrev Settles (w w' : World) : Prop := SettlesBut (fun _ => False) w w'

variable {free : Place → Prop} {w w₁ w₂ : World}

theorem SettlesBut.refl (w : World) : SettlesBut free w w := ⟨.refl w, fun _ _ => .inl rfl⟩

theorem SettlesBut.trans (h : SettlesBut free w w₁) (h' : SettlesBut free w₁ w₂) :
    SettlesBut free w w₂ :=
  ⟨h.toSamePlaces.trans h'.toSamePlaces, fun q hq => (h.nodes q hq).trans (h'.nodes q hq)⟩

theorem Settles.settlesBut (h : w.Settles w₁) : SettlesBut free w w₁ :=
  ⟨h.toSamePlaces, fun q _ => h.nodes q not_false⟩

instance : AllowsReading (SettlesBut free) where
  refl := SettlesBut.refl
  trans := SettlesBut.trans
  same h := h.toSamePlaces
  report _ _ := ⟨⟨rfl, rfl, rfl⟩, fun _ _ => .inl rfl⟩
  settle := by
    intro w place first later h
    refine ⟨⟨rfl, rfl, rfl⟩, fun q _ => ?_⟩
    by_cases hq : q = place
    · subst hq
      refine .inr ⟨first, later, h, Tree.get?_put (Tree.ne_nil_of_get?_ne (t := w.tree) ?_)⟩
      rw [h]
      exact nofun
    · exact .inl (Tree.get?_put_of_ne hq)

theorem Settles.sameDirectories (h : w.Settles w₁) : w.tree.SameDirectories w₁.tree := by
  intro q
  rcases h.nodes q not_false with hsame | ⟨first, later, hchanging, hfile⟩
  · rw [hsame]
  · rw [hchanging, hfile]
    exact iff_of_false nofun nofun

theorem settles_of_moves {α : Type} {t : Task (StateM World) α} {r : Except Failure α}
    (ht : ∀ place, Moves (World.IsAt place) Settles t.run) (h : w.run t = (r, w₁)) :
    w.Settles w₁ :=
  ((ht w.workingPlace).of_run rfl h).1

/-- Where all that comes after the first part of a program is reading. -/
theorem settles_bind {α β : Type} {t : Task (StateM World) α} {f : α → Task (StateM World) β}
    (hf : ∀ a place, Moves (World.IsAt place) Settles (f a).run) (w : World) :
    (w.run t).2.Settles (w.run (t >>= f)).2 := by
  rw [run_bind]
  split
  · rename_i a w₁ heq
    rw [heq]
    exact hf a w₁.workingPlace w₁ rfl
  · rename_i e w₁ heq
    rw [heq]
    exact .refl w₁

/-! ## Hosts on which anything may be written -/

/-- What happens when files are written and directories are made. -/
structure Effects where
  writeFile : Path → Bytes → StateM World (Except Files.Fault Unit)
  createDirectories : Path → StateM World (Except Files.Fault Unit)

/-- A host on which this happens. Files are read as in every world. -/
abbrev Effects.host (f : Effects) : Host (StateM World) where
  readFile := Host.readFile
  writeFile := f.writeFile
  createDirectories := f.createDirectories
  listDirectory := Host.listDirectory
  isDirectory := Host.isDirectory
  isFile := Host.isFile
  report := Host.report

/-- What happens in a world by itself. -/
def Effects.own : Effects := ⟨Host.writeFile, Host.createDirectories⟩

def runWith {α : Type} (w : World) (f : Effects)
    (t : [Host (StateM World)] → Task (StateM World) α) : Except Failure α × World :=
  w.run (@t f.host)

theorem runWith_own {α : Type} (w : World) (t : [Host (StateM World)] → Task (StateM World) α) :
    w.runWith .own t = w.run t := rfl

/-- A policy is written back: the one that is read from the kernel, where its digest says that there
is one. -/
def WritesBack (f : Effects) (k : Kernel.Interface) (sm : Submodule) (w w' : World) : Prop :=
  ∃ digest dump w₁ w₂,
    w.run (k.readFlag sm.name Kernel.digestFile) = (.ok digest, w₁) ∧ digest ≠ Digest.notLoaded ∧
    w₁.run (k.dump sm.name) = (.ok dump, w₂) ∧ dump ≠ [] ∧
    w' = (f.writeFile (k.path sm.name Kernel.loadFile) dump w₂).2

/-- The policies of some submodules were written back, in this order. All else was reading. -/
inductive Reloads (f : Effects) (k : Kernel.Interface) : List Submodule → World → World → Prop where
  | reads {w w' : World} (h : w.Settles w') : Reloads f k [] w w'
  | writesBack {sm : Submodule} {sms : List Submodule} {w w₁ w₂ w' : World} (h : w.Settles w₁)
      (hwrites : WritesBack f k sm w₁ w₂) (hrest : Reloads f k sms w₂ w') :
      Reloads f k (sm :: sms) w w'

/-- The policies of some of the submodules were written back, each once. -/
def ReloadsSome (f : Effects) (k : Kernel.Interface) (present : List Submodule) (w w' : World) :
    Prop :=
  ∃ reloaded, reloaded.Sublist present ∧ Reloads f k reloaded w w'

section Reloads

variable {f : Effects} {k : Kernel.Interface} {sm : Submodule}
  {sms sms' present present' : List Submodule}

theorem Reloads.of_settles (h : w.Settles w₁) (h' : Reloads f k sms w₁ w₂) :
    Reloads f k sms w w₂ := by
  cases h' with
  | reads hreads => exact .reads (h.trans hreads)
  | writesBack hreads hwrites hrest => exact .writesBack (h.trans hreads) hwrites hrest

theorem Reloads.trans (h : Reloads f k sms w w₁) (h' : Reloads f k sms' w₁ w₂) :
    Reloads f k (sms ++ sms') w w₂ := by
  induction h with
  | reads hreads => exact h'.of_settles hreads
  | writesBack hreads hwrites _ ih => exact .writesBack hreads hwrites (ih h')

/-- A policy is written back, and what comes then is reading. -/
theorem Reloads.single (hwrites : WritesBack f k sm w w₁) (h : w₁.Settles w₂) :
    Reloads f k [sm] w w₂ :=
  .writesBack (.refl w) hwrites (.reads h)

theorem Settles.reloadsSome (h : w.Settles w₁) : ReloadsSome f k present w w₁ :=
  ⟨[], List.nil_sublist _, .reads h⟩

theorem ReloadsSome.trans (h : ReloadsSome f k present w w₁)
    (h' : ReloadsSome f k present' w₁ w₂) : ReloadsSome f k (present ++ present') w w₂ := by
  obtain ⟨sms, hsms, hreloads⟩ := h
  obtain ⟨sms', hsms', hreloads'⟩ := h'
  exact ⟨sms ++ sms', hsms.append hsms', hreloads.trans hreloads'⟩

/-- A program that reads first. It comes to its second part only if it can read. -/
theorem reloadsSome_bind {α β : Type} {t : Task (StateM World) α} {g : α → Task (StateM World) β}
    (ht : ∀ place, Moves (World.IsAt place) Settles t.run) (h : w.Settles w₁)
    (hg : ∀ a w₂, w₁.run t = (.ok a, w₂) → w.Settles w₂ →
      ReloadsSome f k present w (w₂.run (g a)).2) :
    ReloadsSome f k present w (w₁.run (t >>= g)).2 := by
  cases hrun : w₁.run t with
  | mk r w₂ =>
    have hread : w.Settles w₂ := h.trans (settles_of_moves ht hrun)
    cases r with
    | error e =>
      rw [run_bind_of_error hrun]
      exact hread.reloadsSome
    | ok a =>
      rw [run_bind_of_ok hrun]
      exact hg a w₂ hrun hread

end Reloads

end World

/-! ## The test of one submodule -/

namespace Moves

variable {I : World → Prop} {R : World → World → Prop} [Lasting I] [AllowsReading R]

theorem recompile (l : Loader) (options : Options) (sm : Submodule) (binary : Bytes) :
    Moves I R (l.recompile options sm binary : Task (StateM World) Unit).run := by
  unfold Loader.recompile
  refine run_bind (decompile _ _) fun lines => run_bind (run_forM run_report _) fun _ =>
    run_bind (compileLines l _ _ _ _) fun policy => run_bind (decompile _ _) fun again => ?_
  dsimp only
  split
  · exact run_throw _
  · exact run_pure _

theorem run_check {α : Type} {c : Prop} [Decidable c] {e : Failure}
    {t : Unit → Task (StateM World) α} (ht : ∀ u, Moves I R (t u).run) :
    Moves I R (if c then throw e >>= t else t ()).run := by
  split
  · exact run_bind (run_throw _) ht
  · exact ht ()

end Moves

namespace Loader

open World (ReloadsSome)

variable (l : Loader) (f : World.Effects) (w : World)

/-- What is read after a policy was loaded again. -/
def reread (sm : Submodule) (digest : String) (dump : Bytes) : Task (StateM World) Bytes := do
  let after ← l.kernel.readFlag sm.name Kernel.digestFile
  if after ≠ digest then throw (.digestChanged sm.name)
  let reloaded ← l.kernel.dump sm.name
  if Digest.ofContent reloaded ≠ Digest.ofContent dump then throw (.policyChanged sm.name)
  return reloaded

/-- The rest of the test of a submodule, after its digest and its policy were read. -/
def testRead (options : Options) (sm : Submodule) (digest : String) (dump : Bytes) :
    Task (StateM World) Unit :=
  if decide (digest ≠ Digest.notLoaded) then
    @reload _ _ f.host l sm digest dump >>= fun reloaded =>
      l.recompile options sm reloaded >>= fun _ => Task.report (.testPassed sm.name)
  else Task.report (.nothingLoaded sm.name)

theorem readFlag_host : @Kernel.Interface.readFlag _ _ f.host l.kernel = l.kernel.readFlag := rfl

theorem dump_host : @Kernel.Interface.dump _ _ f.host l.kernel = l.kernel.dump := by
  unfold Kernel.Interface.dump Task.readBytes
  rfl

theorem reload_host (sm : Submodule) (digest : String) (dump : Bytes) :
    @reload _ _ f.host l sm digest dump =
      @Kernel.Interface.load _ _ f.host l.kernel sm.name dump >>= fun _ =>
        l.reread sm digest dump := by
  unfold reload
  simp only [readFlag_host, dump_host]
  rfl

theorem testSubmodule_host (options : Options) (sm : Submodule) :
    @testSubmodule _ _ f.host l options sm =
      l.kernel.readFlag sm.name Kernel.digestFile >>= fun digest =>
        l.kernel.dump sm.name >>= fun dump =>
          if decide (digest ≠ Digest.notLoaded) = dump.isEmpty then
            throw (.inconsistent sm.name digest dump.length) >>= fun _ : Unit =>
              l.testRead f options sm digest dump
          else l.testRead f options sm digest dump := by
  have hrecompile : @recompile _ _ f.host l = l.recompile := rfl
  unfold testSubmodule
  simp only [readFlag_host, dump_host, hrecompile]
  rfl

theorem selfTest_host : @selfTest _ _ f.host l =
    l.ensureUnlocked >>= fun _ => l.options >>= fun options =>
      ExceptT.lift l.submodules >>= fun present =>
        present.forM (@testSubmodule _ _ f.host l options) := by
  have hunlocked : @ensureUnlocked _ _ f.host l = l.ensureUnlocked := rfl
  have hoptions : @Loader.options _ _ f.host l = l.options := rfl
  have hsubmodules : @submodules _ _ f.host l = l.submodules := rfl
  unfold selfTest
  rw [hunlocked, hoptions, hsubmodules]

theorem moves_reread {I : World → Prop} {R : World → World → Prop} [Lasting I] [AllowsReading R]
    (sm : Submodule) (digest : String) (dump : Bytes) :
    Moves I R (l.reread sm digest dump).run := by
  unfold reread
  exact .run_bind (.readFlag _ _ _) fun _ => .run_check fun _ =>
    .run_bind (.run_access (.readFile _)) fun _ => .run_check fun _ => .run_pure _

theorem settles_reload (sm : Submodule) (digest : String) (dump : Bytes) :
    (f.writeFile (l.kernel.path sm.name Kernel.loadFile) dump w).2.Settles
      (w.run (@reload _ _ f.host l sm digest dump)).2 := by
  have hload : (w.run (@Kernel.Interface.load _ _ f.host l.kernel sm.name dump)).2 =
      (f.writeFile (l.kernel.path sm.name Kernel.loadFile) dump w).2 := World.run_access_snd
  rw [← hload, reload_host]
  exact World.settles_bind (fun _ _ => moves_reread l sm digest dump) w

theorem settles_testRead_of_loaded (options : Options) (sm : Submodule) {digest : String}
    (h : digest ≠ Digest.notLoaded) (dump : Bytes) :
    (f.writeFile (l.kernel.path sm.name Kernel.loadFile) dump w).2.Settles
      (w.run (l.testRead f options sm digest dump)).2 := by
  unfold testRead
  rw [if_pos (decide_eq_true h)]
  refine (settles_reload l f w sm digest dump).trans (World.settles_bind (fun _ _ => ?_) w)
  exact .run_bind (.recompile l _ _ _) fun _ => .run_report _

theorem settles_testRead_of_not_loaded (options : Options) (sm : Submodule) (dump : Bytes) :
    w.Settles (w.run (l.testRead f options sm Digest.notLoaded dump)).2 :=
  Moves.run_report (I := World.IsAt w.workingPlace) (.nothingLoaded sm.name) w rfl

/-- Wherever the test of a submodule stops, its policy was written back, or nothing was. -/
theorem reloadsSome_testSubmodule (options : Options) (sm : Submodule) :
    ReloadsSome f l.kernel [sm] w (w.run (@testSubmodule _ _ f.host l options sm)).2 := by
  rw [testSubmodule_host]
  refine World.reloadsSome_bind (fun _ => .readFlag _ _ _) (.refl w)
    fun digest w₁ hdigest hread₁ => ?_
  refine World.reloadsSome_bind (fun _ => .run_access (.readFile _)) hread₁
    fun dump w₂ hdump hread => ?_
  split
  · exact hread.reloadsSome
  · rename_i hcheck
    by_cases hloaded : digest = Digest.notLoaded
    · subst hloaded
      exact World.Settles.reloadsSome
        (hread.trans (settles_testRead_of_not_loaded l f w₂ options sm dump))
    · -- The check has passed, so there is a policy where the digest says that there is one.
      have hdump' : dump ≠ [] := by
        rintro rfl
        simp [hloaded] at hcheck
      exact ⟨[sm], List.Sublist.refl _, .single
        ⟨digest, dump, w₁, w₂, hdigest, hloaded, hdump, hdump', rfl⟩
        (settles_testRead_of_loaded l f w₂ options sm hloaded dump)⟩

/-- Each policy is written back once at most, whatever becomes of the others. -/
theorem reloadsSome_testAll (options : Options) (present : List Submodule) :
    ReloadsSome f l.kernel present w
      (w.run (present.forM (@testSubmodule _ _ f.host l options))).2 := by
  induction present generalizing w with
  | nil => exact World.Settles.reloadsSome (.refl w)
  | cons sm rest ih =>
    have hfirst := reloadsSome_testSubmodule l f w options sm
    rw [List.forM, World.run_bind]
    split
    · rename_i u w₁ heq
      rw [heq] at hfirst
      exact hfirst.trans (ih w₁)
    · rename_i e w₁ heq
      rw [heq] at hfirst
      exact hfirst.trans (World.Settles.reloadsSome (.refl w₁))

/-- A test writes nothing but policies that the kernel has just given. -/
theorem reloadsSome_selfTest :
    ReloadsSome f l.kernel (l.present w) w (w.run (@selfTest _ _ f.host l)).2 := by
  rw [selfTest_host]
  refine World.reloadsSome_bind (fun _ => .ensureUnlocked l) (.refl w) fun _ w₁ _ hread₁ => ?_
  refine World.reloadsSome_bind (fun _ => .readOptions _) hread₁ fun options w₂ _ hread => ?_
  rw [World.run_bind_of_ok (run_present l w₂),
    l.present_congr hread.workingPlace hread.sameDirectories]
  obtain ⟨reloaded, hsublist, hreloads⟩ := reloadsSome_testAll l f w₂ options (l.present w)
  exact ⟨reloaded, hsublist, hreloads.of_settles hread⟩

end Loader

/-! ## Kernels that are given their own policy -/

/-- What a kernel does when it is given a policy: it refuses it, or takes it and has it then. Of a
policy that it has it says what `tells` gives. -/
inductive Kernel.Interface.Reacts (k : Kernel.Interface) (tells : Bytes → Option Bytes)
    (blob : Bytes) (w w' : World) : Prop where
  | refuses (hplaces : w.SamePlaces w')
      (hothers : ∀ q, q ≠ k.fileIn w Protection.name Kernel.loadFile →
        w'.tree.get? q = w.tree.get? q)
  | takes {text : Bytes} (hplaces : w.SamePlaces w') (htells : tells blob = some text)
      (hdump : w'.tree.get? (k.fileIn w Protection.name Kernel.dumpFile) = some (.file blob))
      (hdigest : w'.tree.get? (k.fileIn w Protection.name Kernel.digestFile) = some (.file text))
      (hothers : ∀ q, (∀ file ∈ Kernel.loadFile :: World.account,
        q ≠ k.fileIn w Protection.name file) → w'.tree.get? q = w.tree.get? q)

/-- Whatever policy a kernel is given, all that it does is to take it or to refuse it. -/
def World.Effects.Accepts (f : World.Effects) (k : Kernel.Interface)
    (tells : Bytes → Option Bytes) (w : World) : Prop :=
  ∀ w₁, w.SamePlaces w₁ → ∀ blob,
    k.Reacts tells blob w₁ (f.writeFile (k.path Protection.name Kernel.loadFile) blob w₁).2

/-- What a kernel says is true of the policy that it gives. -/
structure Kernel.Interface.IsConsistent (k : Kernel.Interface) (tells : Bytes → Option Bytes)
    (w : World) : Prop where
  isStill : ∀ first later, w.tree.get? (k.fileIn w Protection.name Kernel.dumpFile) ≠
    some (.changing first later)
  digest : ∀ {blob text},
    w.tree.get? (k.fileIn w Protection.name Kernel.dumpFile) = some (.file blob) →
      tells blob = some text →
        w.tree.get? (k.fileIn w Protection.name Kernel.digestFile) = some (.file text)

section Accepts

variable {f : World.Effects} {k : Kernel.Interface} {tells : Bytes → Option Bytes} {w w' : World}

theorem World.Effects.Accepts.same (h : f.Accepts k tells w) (hw : w.SamePlaces w') :
    f.Accepts k tells w' := fun w₁ hw₁ => h w₁ (hw.trans hw₁)

theorem Kernel.Interface.fileIn_ne_load {file : String} (hfile : file ∈ World.account) :
    k.fileIn w Protection.name file ≠ k.fileIn w Protection.name Kernel.loadFile := by
  intro heq
  obtain ⟨-, rfl⟩ := Kernel.Interface.fileIn_inj.1 heq
  exact absurd hfile (by decide)

theorem Kernel.Interface.IsConsistent.settles (h : k.IsConsistent tells w)
    (hw : World.SettlesBut (· = k.fileIn w Protection.name Kernel.loadFile) w w') :
    k.IsConsistent tells w' := by
  have hdump : w'.tree.get? (k.fileIn w' Protection.name Kernel.dumpFile) =
      w.tree.get? (k.fileIn w Protection.name Kernel.dumpFile) := by
    rw [hw.toSamePlaces.fileIn]
    exact (hw.nodes _ (fileIn_ne_load (by decide))).eq h.isStill
  refine ⟨fun first later => ?_, fun hblob htells => ?_⟩
  · rw [hdump]
    exact h.isStill first later
  · rw [hdump] at hblob
    have hdigest := h.digest hblob htells
    rw [hw.toSamePlaces.fileIn, ← hdigest]
    refine (hw.nodes _ (fileIn_ne_load (by decide))).eq fun first later => ?_
    rw [hdigest]
    exact nofun

theorem Kernel.Interface.IsConsistent.dump (h : k.IsConsistent tells w) {dump : Bytes}
    (hdump : w.run (k.dump Protection.name) = (.ok dump, w')) :
    w.tree.get? (k.fileIn w Protection.name Kernel.dumpFile) = some (.file dump) := by
  have hplace := k.placeOf_path w.workingPlace (show Path.IsName Protection.name by decide)
    (show Path.IsName Kernel.dumpFile by decide)
  have hread := World.run_access_ok hdump
  rw [World.readFile_eq] at hread
  cases hfile : w.tree.read w.workingPlace (k.path Protection.name Kernel.dumpFile) with
  | error fault =>
    rw [hfile] at hread
    cases hread
  | ok found =>
    obtain ⟨content, tree⟩ := found
    rw [hfile] at hread
    obtain rfl := Except.ok.inj (Prod.mk.inj hread).1
    have hcases := Tree.read_eq_ok hfile
    rw [hplace] at hcases
    rcases hcases with ⟨hget, -⟩ | ⟨later, hget, -⟩
    · exact hget
    · exact absurd hget (h.isStill _ _)

/-- A kernel that is given the policy that it has is as before, whether it takes it or not. -/
theorem Kernel.Interface.Reacts.settles {blob : Bytes} (h : k.Reacts tells blob w w')
    (hconsistent : k.IsConsistent tells w)
    (hheld : w.tree.get? (k.fileIn w Protection.name Kernel.dumpFile) = some (.file blob)) :
    World.SettlesBut (· = k.fileIn w Protection.name Kernel.loadFile) w w' := by
  cases h with
  | refuses hplaces hothers => exact ⟨hplaces, fun q hq => .inl (hothers q hq)⟩
  | takes hplaces htells hdump hdigest hothers =>
    refine ⟨hplaces, fun q hq => .inl ?_⟩
    by_cases hqdump : q = k.fileIn w Protection.name Kernel.dumpFile
    · rw [hqdump, hdump, hheld]
    · by_cases hqdigest : q = k.fileIn w Protection.name Kernel.digestFile
      · rw [hqdigest, hdigest, hconsistent.digest hheld htells]
      · refine hothers q fun file hfile => ?_
        simp only [World.account, List.mem_cons, List.not_mem_nil, or_false] at hfile
        rcases hfile with rfl | rfl | rfl
        · exact hq
        · exact hqdigest
        · exact hqdump

theorem World.WritesBack.settles {sm : Submodule} (h : World.WritesBack f k sm w w')
    (haccepts : f.Accepts k tells w) (hconsistent : k.IsConsistent tells w) :
    World.SettlesBut (· = k.fileIn w Protection.name Kernel.loadFile) w w' := by
  cases sm
  obtain ⟨digest, dump, w₁, w₂, hdigest, -, hdump, -, rfl⟩ := h
  have hread₁ : w.Settles w₁ := World.settles_of_moves (fun _ => .readFlag _ _ _) hdigest
  have hread₂ : w₁.Settles w₂ := World.settles_of_moves (fun _ => .run_access (.readFile _)) hdump
  have hread : w.Settles w₂ := hread₁.trans hread₂
  -- Reading the digest has not changed the policy, so what is written is what the kernel had.
  have hconsistent₁ := hconsistent.settles hread₁.settlesBut
  have hheld := hconsistent₁.dump hdump
  rw [← (hread₂.nodes _ not_false).eq hconsistent₁.isStill, ← hread₂.fileIn] at hheld
  have hconsistent₂ := hconsistent.settles hread.settlesBut
  have hreacts := (haccepts w₂ hread.toSamePlaces dump).settles hconsistent₂ hheld
  rw [hread.fileIn] at hreacts
  exact hread.settlesBut.trans hreacts

/-- The kernel is as before after its policies were written back. -/
theorem World.Reloads.settles {sms : List Submodule} (h : World.Reloads f k sms w w')
    (haccepts : f.Accepts k tells w) (hconsistent : k.IsConsistent tells w) :
    World.SettlesBut (· = k.fileIn w Protection.name Kernel.loadFile) w w' := by
  induction h with
  | reads hreads => exact hreads.settlesBut
  | @writesBack sm sms w w₁ w₂ w' hreads hwrites _ ih =>
    have hwritten := hwrites.settles (haccepts.same hreads.toSamePlaces)
      (hconsistent.settles hreads.settlesBut)
    rw [hreads.fileIn] at hwritten
    -- The kernel is consistent after the first policy too, which is what the rest starts from.
    have hsettles := hreads.settlesBut.trans hwritten
    have hrest := ih (haccepts.same hsettles.toSamePlaces) (hconsistent.settles hsettles)
    rw [hsettles.fileIn] at hrest
    exact hsettles.trans hrest

/-- What the kernel of a world says of a policy: the digest that is written in it. -/
def World.digestText (blob : Bytes) : Option Bytes :=
  (Protection.Blob.decode blob).toOption.map fun found => Bytes.ofString (found.1.hex ++ "\n")

/-- The kernel of a world takes what it can read, and refuses all else. -/
theorem Kernel.Interface.Reaches.accepts (hk : k.Reaches w) :
    World.Effects.own.Accepts k World.digestText w := by
  intro w₁ hsame blob
  have hk₁ := hk.same hsame
  have hplace := hk₁.placeOf_path (show Path.IsName Protection.name by decide)
    (show Path.IsName Kernel.loadFile by decide)
  change k.Reacts _ _ _ ((Host.writeFile _ _ : StateM World _) w₁).2
  rcases World.writeFile_cases w₁ (k.path Protection.name Kernel.loadFile) blob with
    ⟨hok, -⟩ | ⟨fault, herror⟩
  · rw [hok, hplace, ← hk₁.fileIn_eq]
    have hne : ∀ file, k.fileIn w₁ Protection.name file ≠ [] := by simp [fileIn]
    rcases World.react_cases (w := w₁.putFile _ blob) hk₁.behaviour _ blob with
      hreact | ⟨d, rules, hdecode, hreact⟩
    · rw [hreact]
      exact .refuses ⟨rfl, rfl, rfl⟩ fun q hq => Tree.get?_put_of_ne hq
    · rw [hreact]
      have htells : World.digestText blob = some (Bytes.ofString (d.hex ++ "\n")) := by
        unfold World.digestText
        rw [hdecode]
        rfl
      change k.Reacts _ _ _ ((World.putFile _ (w₁.fileOf _ Kernel.dumpFile) blob).putFile
        (w₁.fileOf _ Kernel.digestFile) _)
      rw [← hk₁.fileIn_eq, ← hk₁.fileIn_eq]
      refine .takes ⟨rfl, rfl, rfl⟩ htells ?_ (Tree.get?_put (hne _)) fun q hq => ?_
      · refine (Tree.get?_put_of_ne fun heq => ?_).trans (Tree.get?_put (hne _))
        exact absurd (Kernel.Interface.fileIn_inj.1 heq).2 (by decide)
      · exact ((Tree.get?_put_of_ne (hq _ (by decide))).trans
          (Tree.get?_put_of_ne (hq _ (by decide)))).trans (Tree.get?_put_of_ne (hq _ (by decide)))
  · rw [herror]
    exact .refuses (.refl w₁) fun _ _ => rfl

end Accepts

namespace Loader

theorem Stands.isConsistent {l : Loader} {w w' : World} {m : Making} (h : l.Stands w m w') :
    l.kernel.IsConsistent World.digestText w' := by
  have hdump := h.has.dump
  have hdigest := h.has.digest
  unfold World.held at hdump hdigest
  rw [← h.reaches.fileIn_eq] at hdump hdigest
  refine ⟨fun first later hchanging => ?_, fun {blob text} hblob htells => ?_⟩
  · rw [hdump] at hchanging
    cases hchanging
  · obtain rfl := Node.file.inj (Option.some.inj (hdump.symm.trans hblob))
    obtain ⟨⟨d, rules⟩, hdecode, rfl⟩ := Option.map_eq_some_iff.1 htells
    rw [hdigest, Protection.digest_of_decode m.made (toOption_eq_some.1 hdecode)]

/-- Wherever a test stops, it has written nothing but policies that the kernel had just given, each
of them once at most. If the kernel accepts them and tells the truth, no file is different after the
test but those that take policies, and those that change by themselves. -/
theorem selfTest_reloads (l : Loader) (f : World.Effects) (w : World) :
    (∃ reloaded, reloaded.Nodup ∧ (∀ sm ∈ reloaded, sm ∈ l.present w) ∧
      World.Reloads f l.kernel reloaded w (w.runWith f l.selfTest).2) ∧
    ∀ tells, f.Accepts l.kernel tells w → l.kernel.IsConsistent tells w →
      ∀ q ≠ l.kernel.fileIn w Protection.name Kernel.loadFile,
        (∀ first later, w.tree.get? q ≠ some (.changing first later)) →
          (w.runWith f l.selfTest).2.tree.get? q = w.tree.get? q := by
  obtain ⟨reloaded, hsublist, hreloads⟩ := reloadsSome_selfTest l f w
  have hnodup : (l.present w).Nodup := by
    rcases l.present_eq w with h | h <;> rw [h] <;> decide
  refine ⟨⟨reloaded, hnodup.sublist hsublist, fun _ hsm => hsublist.subset hsm, hreloads⟩, ?_⟩
  intro tells haccepts hconsistent q hq hstill
  exact ((hreloads.settles haccepts hconsistent).nodes q hq).eq hstill

theorem selfTest_reloads_sample : ∃ report w',
    sampleWorld.run (sampleLoader.load true) = (.ok report, w') ∧
      World.Effects.own.Accepts sampleLoader.kernel World.digestText w' ∧
      sampleLoader.kernel.IsConsistent World.digestText w' ∧
      ∀ file ∈ [Kernel.digestFile, Kernel.dumpFile, "enabled"],
        (w'.run sampleLoader.selfTest).2.tree.get? (w'.fileOf Protection.name file) =
          w'.held file := by
  have hstill : sampleWorld.tree.IsStill := Tree.isStill_of_all (by decide +kernel)
  have haccount : sampleWorld.HasAccountFiles := by decide +kernel
  obtain ⟨w', hload⟩ : ∃ w', sampleWorld.run (sampleLoader.load true) =
      (.ok ⟨[Protection.name], [], []⟩, w') := World.run_of_toOption (by decide +kernel)
  obtain ⟨m, hmakes, hstands⟩ :=
    load_stands sampleLoader_reaches hstill haccount hload (List.mem_singleton_self _)
  have hmade : ((sampleWorld.run sampleLoader.survey).1.toOption.all fun read =>
      !read.2.options.main.locked && decide (read.1.length < 2 ^ 32)) = true := by
    decide +kernel
  rw [hmakes] at hmade
  simp only [Except.toOption, Option.all_some, Bool.and_eq_true, Bool.not_eq_true',
    decide_eq_true_eq] at hmade
  have hw' := hstands hmade.1 (Protection.isTaken_of_compile m.made hmade.2)
  have hsame := (selfTest_reloads sampleLoader .own w').2 World.digestText hw'.reaches.accepts
    hw'.isConsistent
  rw [World.runWith_own] at hsame
  refine ⟨_, w', hload, hw'.reaches.accepts, hw'.isConsistent, fun file hfile => ?_⟩
  have hne : ∀ file ∈ [Kernel.digestFile, Kernel.dumpFile, "enabled"], file ≠ Kernel.loadFile := by
    decide
  unfold World.held
  rw [← hw'.reaches.fileIn_eq]
  exact hsame _ (fun heq => hne file hfile (Kernel.Interface.fileIn_inj.1 heq).2)
    (hw'.spares.isStill _)

end Loader

end PathPolicy
