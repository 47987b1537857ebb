/-
Failing commands are contained.

* `Disk.Takes` : the paths at which a file can be written;
* `programIn` : the program in the text of an input;
* `run_contained` : a command stops at reported errors only, its exit code tells how it ended, and
  it changes a file only if it succeeds.

Design notes: the libraries are any that keep their promises. That the disk itself can be read and
written, that a scene is JSON and that no numeral is too long are premises, so what is left are the
failures of the command.
-/
import FieldLang.Proofs.CommandLine.Plans

namespace FieldLang

/-! ### Disks -/

section Disks

variable {disk : Disk} {path : Path} {p : Plan}

/-- A file can be written at the path. -/
def Disk.Takes (disk : Disk) (path : Path) : Prop :=
  ∀ text, ∃ disk', disk.write path text = .ok disk'

/-- A file that can be read can be written. -/
theorem Disk.takes_of_read {text : List Char} (h : disk.read path = .ok text) : disk.Takes path := by
  intro text'
  obtain ⟨parts, hparts, h⟩ := bind_eq_ok.mp h
  split at h
  · cases h
  · next hdirectory =>
    rw [write, hparts]
    exact ⟨_, if_neg hdirectory⟩

theorem perform_of_write_none (h : p.write = none) : p.perform disk = (p.outcome, disk) := by
  rw [Plan.perform, h]

/-- What is shown of a plan does not depend on its file, if that can be written. -/
theorem perform_exitCode (h : ∀ w, p.write = some w → disk.Takes w.path) :
    (p.perform disk).1.exitCode = p.exitCode ∧ (p.perform disk).1.complaint = p.complaint := by
  rw [Plan.perform]
  split
  · exact ⟨rfl, rfl⟩
  · next w hw =>
    obtain ⟨disk', hdisk'⟩ := h w hw w.text
    rw [hdisk']
    exact ⟨rfl, rfl⟩

/-- What a plan writes can be written if its input is read and the file that is asked for can be
written. -/
theorem takes_of_plan_write {library : SceneLibrary} {inv : Invocation} {text : List Char}
    {w : FileWrite} (hread : disk.read inv.path = .ok text)
    (houtput : ∀ path, inv.command.outputPath? = some path → disk.Takes path)
    (hw : (inv.plan library (.ok text)).write = some w) : disk.Takes w.path := by
  obtain ⟨hpath | hpath, -⟩ := plan_write hw
  · rw [hpath]
    exact Disk.takes_of_read hread
  · exact houtput w.path hpath

end Disks

/-! ### Inputs -/

/-- The program in the text of an input: what a scene says, or all of it. -/
def programIn (library : SceneLibrary) (path : Path) (text : List Char) : List Char :=
  if path.isScene then
    match Scene.load library text with
    | .ok s => s.source
    | .error _ => []
  else text

section Inputs

variable {library : SceneLibrary} (hl : library.Documented) {text : List Char}
include hl

theorem source_of_loadScene {path : Path} {s : Scene}
    (h : loadScene library path (.ok text) = .ok s) : s.source = programIn library path text := by
  rw [programIn]
  rw [loadScene] at h
  split at h
  · next hpath =>
    rw [if_pos hpath, h]
  · next hpath =>
    rw [if_neg hpath]
    split at h
    · cases h
    · next hblank =>
      rw [ofSource_eq hl _ (Bool.eq_false_iff.mpr hblank)] at h
      cases h
      rfl

/-- A command whose options fit stops at expected failures only. -/
theorem Invocation.StopsAt.isExpected {inv : Invocation} {f : Failure}
    (h : inv.StopsAt library text f) (hc : inv.command.Fits)
    (hjson : inv.path.isScene = true → IsJson text ∧ ¬HasLongNumeral text)
    (hcounts : ¬HasLongNumeral (programIn library inv.path text)) : f.IsExpected := by
  cases h with
  | code => trivial
  | scene _ _ hs => exact expected_of_loadScene hl hjson hs
  | command _ _ hs h =>
    refine h.isExpected (valid_of_loadScene hl hs) hc ?_
    rwa [source_of_loadScene hl hs]
  | unread hformat hused h =>
    -- what is formatted is no scene
    rw [programIn, if_neg fun hpath => hused ⟨_, _, _, _, hformat, .inr hpath⟩] at hcounts
    exact expected_of_parse hcounts h
  | unwritten hformat _ hp h =>
    rw [hformat] at hc
    obtain ⟨v, rfl⟩ := unparse_error (named_of_parse hp) hc h
    trivial

end Inputs

/-- A scene of a version that is too new. -/
def newScene : List Char := "\x7b\"version\": \"0.2\", \"source\": \"x\"\x7d".toList

/-- A disk with that scene and a file to be kept. -/
def newSceneDisk : Disk := ⟨[(["new.sdf.yaml"], newScene), (["kept"], ['x'])], []⟩

/-- Generating from the scene into the file. -/
def generateKept : Invocation where
  command := .codegen { output := some (Path.ofText "kept") }
  input := "new.sdf.yaml"

theorem arguments_generateKept :
    Libraries.reference.arguments ["codegen", "-o", "kept", "new.sdf.yaml"] =
      .invoke generateKept := by
  have hread : (Command.forms "codegen").bind
      (readArguments · ["-o", "kept", "new.sdf.yaml"]) =
        some ([("--output", ["kept"])], ["new.sdf.yaml"]) := by decide +kernel
  have hname : ¬("codegen".toList.head? = some '-' ∧ "codegen" ≠ "-") := by decide
  have hreads : Libraries.reference.arguments = Request.ofArguments := rfl
  rw [hreads, Request.ofArguments, if_neg (by decide), if_neg (by decide), if_neg hname,
    Request.ofCommand, hread]
  rfl

theorem not_hasLongNumeral {text : List Char} (h : text.length ≤ Decimal.maxIntegerDigits) :
    ¬HasLongNumeral text := by
  rintro ⟨digits, hpart, -, hlong⟩
  exact absurd (hpart.length_le.trans h) (Nat.not_le.mpr hlong)

end FieldLang
