import PathPolicy.Proofs.Loading

/-!
# Histories of loads

Between the loads of a history files may be edited in any way, as long as the kernel's account of
what it has loaded is left alone. Whatever happens, the kernel has nothing, or the policy that one
of the loads has made (`History.accounted`).

A load skips a policy whose digest the kernel reports. The digest is that of the text, and the text
does not say how it is read: that also depends on whether the kernel has emulated trampolines, on
the fallback in the options, and on where the words of a line end. So what is skipped is what the
kernel has, exactly if its lines give the same rules as when the policy was made
(`History.unchanged_iff`).
-/

namespace PathPolicy

/-! ## Makings -/

namespace Making

def reader (m : Making) : Protection.Reader := Protection.Reader.ofContext m.ctx

/-- The lines say that there is this rule. -/
def Gives (m : Making) (rule : Protection.Rule) : Prop := m.reader.Gives m.lines rule

/-- The accepted lines have the same words, and are read alike. -/
structure Alike (m m' : Making) : Prop where
  words : (m.reader.accepted m.lines).map (·.tokens) = (m'.reader.accepted m'.lines).map (·.tokens)
  read : ∀ line ∈ m.reader.accepted m.lines, m.reader.read line.tokens = m'.reader.read line.tokens

variable {m m' : Making}

theorem binary_eq_iff (h : m.policy.digest = m'.policy.digest) :
    m.policy.binary = m'.policy.binary ↔ ∀ rule, m.Gives rule ↔ m'.Gives rule :=
  (Protection.binary_eq_iff m.made m'.made).trans (and_iff_right h)

theorem Alike.gives (h : m.Alike m') (rule : Protection.Rule) : m.Gives rule ↔ m'.Gives rule :=
  Protection.Reader.gives_congr h.words h.read

end Making

/-! ## Histories -/

/-- The kernel has not loaded anything. -/
def World.IsFresh (w : World) : Prop :=
  ∃ content text, w.held Kernel.digestFile = some (.file content) ∧
    content.toString? = some text ∧ Text.trim text = Digest.notLoaded

/-- What a world may become, with the loads that were run, each with the world that it started in;
the last one comes first. -/
inductive History (start : World) : List (Loader × World) → World → Prop
  | start : History start [] start
  | edit {loads : List (Loader × World)} {w w' : World} (h : History start loads w)
      (hw : w.Steady w') : History start loads w'
  | load {loads : List (Loader × World)} {w : World} (h : History start loads w) {l : Loader}
      (hl : l.kernel.Reaches w) (force : Bool) :
      History start ((l, w) :: loads) (w.run (l.load force)).2

section Histories

variable {start w w' : World} {loads : List (Loader × World)} {p : Policy}

theorem World.IsFresh.keeps (h : w.IsFresh) (hw : w.Keeps w') : w'.IsFresh := by
  obtain ⟨content, text, hheld, htext, htrim⟩ := h
  exact ⟨content, text, hw _ (by simp [World.account]) _ hheld, htext, htrim⟩

/-- The kernel has nothing, or what one of the loads has made. -/
def World.Accounted (w : World) (loads : List (Loader × World)) : Prop :=
  w.IsFresh ∨ ∃ load ∈ loads, ∃ m, load.1.Makes load.2 m ∧ w.Has m.policy

theorem World.Accounted.keeps (h : w.Accounted loads) (hw : w.Keeps w') : w'.Accounted loads :=
  h.imp (·.keeps hw) fun ⟨load, hload, m, hmakes, has⟩ => ⟨load, hload, m, hmakes, has.keeps hw⟩

/-- What the kernel has is accounted for, at every point of a history. -/
theorem History.accounted (hstart : start.IsFresh) (h : History start loads w) :
    w.Accounted loads := by
  induction h with
  | start => exact .inl hstart
  | edit _ hw ih => exact ih.keeps hw.keeps
  | load h hl force ih =>
    rcases (Loader.load_follows hl force).account with hkeeps | ⟨_, ⟨m, hmakes, rfl⟩, has⟩
    · refine (ih.keeps hkeeps).imp_right ?_
      rintro ⟨load, hload, hrest⟩
      exact ⟨load, List.mem_cons_of_mem _ hload, hrest⟩
    · exact .inr ⟨_, List.mem_cons_self, m, hmakes, has⟩

/-- When a load says that a policy is unchanged, the kernel has the policy of an earlier load with
the same digest, or has nothing and the digest is zero. What it has is what the load has made, byte
for byte, exactly if the lines of the two give the same rules; in particular if the words of the
accepted lines and the way they are read are still the same. -/
theorem History.unchanged_iff (hstart : start.IsFresh) (h : History start loads w) {l : Loader}
    (hl : l.kernel.Reaches w) {report : LoadReport}
    (hload : w.run (l.load false) = (.ok report, w'))
    (hname : Protection.name ∈ report.unchanged) :
    ∃ now, l.Makes w now ∧
      (w'.IsFresh ∧ now.policy.digest = Digest.replicate 0 ∨
        ∃ load ∈ loads, ∃ last, load.1.Makes load.2 last ∧ w'.Has last.policy ∧
          last.policy.digest = now.policy.digest ∧
          (w'.held Kernel.dumpFile = some (.file now.policy.binary) ↔
            ∀ rule, last.Gives rule ↔ now.Gives rule) ∧
          (last.Alike now → w'.held Kernel.dumpFile = some (.file now.policy.binary))) := by
  rcases h.accounted hstart with hfresh | ⟨load, hmem, last, hlast, has⟩
  · obtain ⟨content, text, hheld, htext, htrim⟩ := id hfresh
    obtain ⟨hsteady, now, hnow, text', htext', hdigest⟩ := l.load_unchanged hl hheld hload hname
    obtain rfl := Option.some.inj (htext.symm.trans htext')
    exact ⟨now, hnow, .inl ⟨hfresh.keeps hsteady.keeps,
      Digest.hex_inj (hdigest.symm.trans htrim)⟩⟩
  · obtain ⟨hsteady, now, hnow, text, htext, hdigest⟩ :=
      l.load_unchanged hl has.digest hload hname
    have hsame : last.policy.digest = now.policy.digest := by
      rw [Bytes.toString?_ofString] at htext
      apply Digest.hex_inj
      rw [← hdigest, ← Option.some.inj htext, Digest.trim_hex]
    have has' := has.keeps hsteady.keeps
    have hiff : w'.held Kernel.dumpFile = some (.file now.policy.binary) ↔
        ∀ rule, last.Gives rule ↔ now.Gives rule := by
      rw [has'.dump, ← Making.binary_eq_iff hsame]
      simp
    exact ⟨now, hnow, .inr ⟨load, hmem, last, hlast, has', hsame, hiff,
      fun halike => hiff.2 halike.gives⟩⟩

end Histories

/-- A kernel with emulated trampolines that has nothing loaded, and a rule that asks for them. -/
def sampleWorld : World where
  tree := ⟨[(["conf"], .directory),
    (["conf", "wxprot.conf"], .file (Bytes.ofString "/a FULL, EMUTRAMP\n")),
    (["sara"], .directory), (["sara", "main"], .directory), (["sara", "wxprot"], .directory),
    (["sara", "main", "locked"], .file (Bytes.ofString "0\n")),
    (["sara", "wxprot", "hash"], .file (Bytes.ofString (Digest.notLoaded ++ "\n"))),
    (["sara", "wxprot", "emutramp_available"], .file (Bytes.ofString "1\n"))]⟩
  workingPlace := []
  kernelPlace := ["sara"]
  behaviour := .loading
  events := []

def sampleLoader : Loader := ⟨"/conf", ⟨"/sara"⟩, .files, .strict⟩

/-- The same kernel after a load, without emulated trampolines. -/
def sampleEdited : World :=
  let w := (sampleWorld.run (sampleLoader.load true)).2
  w.putFile (w.fileOf Protection.name Protection.emutrampFeature) (Bytes.ofString "0\n")

def samplePolicy : Option Policy :=
  (sampleEdited.run sampleLoader.survey).1.toOption.bind fun (lines, ctx) =>
    (Protection.compile lines ctx).result.toOption

theorem samplePolicy_eq {m : Making} (h : sampleLoader.Makes sampleEdited m) :
    samplePolicy = some m.policy := by
  unfold samplePolicy
  rw [h]
  show (Protection.compile m.lines m.ctx).result.toOption = _
  rw [m.made]
  rfl

theorem sampleWorld_isFresh : sampleWorld.IsFresh :=
  ⟨_, _, rfl, Bytes.toString?_ofString _, Digest.trim_hex _⟩

theorem sampleLoader_reaches : sampleLoader.kernel.Reaches sampleWorld :=
  ⟨by decide +kernel, rfl⟩

theorem sampleEdited_history :
    History sampleWorld [(sampleLoader, sampleWorld)] sampleEdited ∧
      sampleLoader.kernel.Reaches sampleEdited := by
  have hreaches := sampleLoader_reaches.same
    (Loader.load_follows sampleLoader_reaches true).toSamePlaces
  have hfree : Kernel.IsFree Protection.name Protection.emutrampFeature := by decide
  have hsteady : (sampleWorld.run (sampleLoader.load true)).2.Steady sampleEdited :=
    World.steady_put fun file hfile => hfree.fileOf_ne _ (List.mem_cons_of_mem _ hfile)
  exact ⟨.edit (.load .start sampleLoader_reaches true) hsteady,
    hreaches.same hsteady.toSamePlaces⟩

/-- The policy is skipped although the kernel has another one. -/
theorem sampleEdited_unchanged :
    ((sampleEdited.run (sampleLoader.load false)).1.toOption = some ⟨[], [Protection.name], []⟩ ∧
      samplePolicy.map (·.digest) ≠ some (Digest.replicate 0)) ∧
      samplePolicy.map (fun p => Files.Node.file p.binary) ≠
        (sampleEdited.run (sampleLoader.load false)).2.held Kernel.dumpFile := by
  decide +kernel

theorem History.unchanged_iff_sample :
    sampleWorld.IsFresh ∧ History sampleWorld [(sampleLoader, sampleWorld)] sampleEdited ∧
      sampleLoader.kernel.Reaches sampleEdited ∧ ∃ report w',
        sampleEdited.run (sampleLoader.load false) = (.ok report, w') ∧
          Protection.name ∈ report.unchanged ∧ ∃ last now,
            sampleLoader.Makes sampleWorld last ∧ sampleLoader.Makes sampleEdited now ∧
              w'.Has last.policy ∧ last.policy.digest = now.policy.digest ∧
              w'.held Kernel.dumpFile ≠ some (.file now.policy.binary) ∧
              ¬ ∀ rule, last.Gives rule ↔ now.Gives rule := by
  obtain ⟨hhistory, hreaches⟩ := sampleEdited_history
  obtain ⟨⟨hreport, hdigest⟩, hbinary⟩ := sampleEdited_unchanged
  obtain ⟨report, w', hload⟩ : ∃ report w',
      sampleEdited.run (sampleLoader.load false) = (.ok report, w') := by
    cases hrun : sampleEdited.run (sampleLoader.load false) with
    | mk r w' =>
      cases r with
      | ok report => exact ⟨report, w', rfl⟩
      | error e =>
        rw [hrun] at hreport
        cases hreport
  rw [hload] at hreport hbinary
  have hname : Protection.name ∈ report.unchanged := by
    rw [Option.some.inj hreport]
    exact List.mem_singleton_self _
  obtain ⟨now, hnow, hcases⟩ :=
    hhistory.unchanged_iff sampleWorld_isFresh hreaches hload hname
  rw [samplePolicy_eq hnow] at hdigest hbinary
  rcases hcases with ⟨-, hzero⟩ | ⟨load, hmem, last, hlast, has, hsame, hiff, -⟩
  · exact absurd (congrArg some hzero) hdigest
  · obtain rfl := List.mem_singleton.1 hmem
    refine ⟨sampleWorld_isFresh, hhistory, hreaches, report, w', hload, hname, last, now, hlast,
      hnow, has, hsame, hbinary.symm, fun hgives => ?_⟩
    exact hbinary (hiff.2 hgives).symm

end PathPolicy
