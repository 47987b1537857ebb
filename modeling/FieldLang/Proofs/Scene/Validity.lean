/-
Scenes that are loaded.

* `Scene.Valid` : the settings that later stages rely on;
* `valid_of_loadScene` : every scene that is loaded has them;
* `SceneError.IsExpected`, `expected_of_loadScene` : a scene that is not loaded is refused by an error
  of its own;
* `ofSource_eq` : a program that is not blank is a scene.

Design notes: all of this holds of any library that is as documented. A default is not validated, so
that it is valid is shown wherever a field is optional.
-/
import FieldLang.CommandLine.Run
import FieldLang.Proofs.Scene.Libraries

namespace FieldLang

/-! ### Settings -/

/-- The width is one in which a text can be laid out, and the name is one that a function can have. -/
structure WritingSettings.Valid (w : WritingSettings) : Prop where
  width : 0 < w.width
  functionName : Text.isIdentifier w.functionName.toList = true

/-- Distances can be compared within the tolerance. -/
def Probe.Valid (p : Probe) : Prop := ¬p.tolerance < 0

/-- The source is not blank, and the settings are in order. -/
structure Scene.Valid (s : Scene) : Prop where
  source : (Text.trim s.source).isEmpty = false
  writing : s.writing.Valid
  probes : ∀ p ∈ s.probes, p.Valid

theorem default_writing_valid : ({} : WritingSettings).Valid := ⟨by decide, by decide⟩

theorem valid_of_admits_writing {w : WritingSettings} (h : WritingSettings.declared.Admits w) :
    w.Valid := by
  obtain ⟨⟨target, width, name, ⟨⟩⟩, ⟨-, hwidth, hname, -⟩, rfl⟩ := h
  constructor
  · obtain ⟨-, hwidth⟩ | hdefault := hwidth
    · exact of_decide_eq_true hwidth
    · obtain rfl := Option.some.inj hdefault
      exact default_writing_valid.width
  · obtain ⟨-, hname⟩ | hdefault := hname
    · exact hname
    · obtain rfl := Option.some.inj hdefault
      exact default_writing_valid.functionName

theorem valid_of_admits_probe {p : Probe} (h : Probe.declared.Admits p) : p.Valid := by
  obtain ⟨⟨point, expect, tolerance, ⟨⟩⟩, ⟨-, -, htolerance, -⟩, rfl⟩ := h
  obtain ⟨-, htolerance⟩ | hdefault := htolerance
  · show ¬tolerance < 0
    simpa using htolerance
  · obtain rfl := Option.some.inj hdefault
    show ¬(1e-6 : Float) < 0
    decide

/-- What the schema lets through is valid. -/
theorem valid_of_admits {s : Scene} (h : Scene.declared.Admits s) : s.Valid := by
  obtain ⟨⟨version, name, source, angles, camera, writing, probes, ⟨⟩⟩,
    ⟨-, -, hsource, -, -, hwriting, hprobes, -⟩, rfl⟩ := h
  refine ⟨?_, ?_, ?_⟩
  · obtain ⟨-, hsource⟩ | hdefault := hsource
    · simpa using hsource
    · cases hdefault
  · obtain hwriting | hdefault := hwriting
    · exact valid_of_admits_writing hwriting
    · obtain rfl := Option.some.inj hdefault
      exact default_writing_valid
  · obtain hprobes | hdefault := hprobes
    · exact fun p hp => valid_of_admits_probe (hprobes p hp)
    · obtain rfl := Option.some.inj hdefault
      exact nofun

/-! ### Loading -/

/-- A scene is refused for what the loader looks for, and no exception of a library escapes. -/
def SceneError.IsExpected : SceneError → Prop
  | .escaped _ => False
  | _ => True

/-- The scene of a program without settings. -/
def Scene.plain (name : String) (source : List Char) : Scene :=
  { version := "0.1", name := some name, source }

section Loading

variable {library : SceneLibrary} (hl : library.Documented) {s : Scene} {e : SceneError}
  {text : List Char}
include hl

/-- A program that is not blank is a scene. -/
theorem ofSource_eq (name : String) (h : (Text.trim text).isEmpty = false) :
    Scene.ofSource library name text = .ok (.plain name text) := by
  have hsource : sourceDeclared.IsValue (.text (String.ofList text)) (String.ofList text) :=
    ⟨rfl, by simpa using h⟩
  have hvalue : Scene.declared.IsValue
      (.record [("version", .text "0.1"), ("name", .text name), ("source", .text (String.ofList text))])
      (.plain name text) := by
    refine ⟨_, ("0.1", some name, String.ofList text, {}, none, {}, [], ()), rfl, ?_, ?_, ?_⟩
    · simp [Fields.names]
    · exact ⟨rfl, .inr ⟨by simp, name, rfl, rfl⟩, hsource, rfl, rfl, rfl, rfl, trivial⟩
    · simp [Scene.plain]
  rw [Scene.ofSource]
  simp only [hl.validate_value _ _ _ hvalue]

theorem valid_of_ofDatum {d : Datum} (h : Scene.ofDatum library d = .ok s) : s.Valid := by
  cases d with
  | record entries =>
    rw [Scene.ofDatum] at h
    split at h
    · cases h
    · cases h
    · obtain ⟨-, -, h⟩ := bind_eq_ok.mp h
      split at h
      · next hs =>
        cases h
        exact valid_of_admits (hl.validate_admits _ _ _ hs)
      · cases h
      · cases h
  | _ => cases h

theorem expected_of_ofDatum {d : Datum} (h : Scene.ofDatum library d = .error e) :
    e.IsExpected := by
  cases d with
  | record entries =>
    rw [Scene.ofDatum] at h
    split at h
    · cases h
      trivial
    · cases h
      trivial
    · obtain h | ⟨-, -, h⟩ := bind_eq_error.mp h
      · rw [checkVersion] at h
        split at h
        · split at h
          · split at h <;> cases h
            trivial
          · cases h
            trivial
        · cases h
          trivial
      · split at h
        · cases h
        · cases h
          trivial
        · next kind hs => exact absurd hs (hl.validate_raises _ _ kind)
  | _ =>
    cases h
    trivial

/-- A scene that is loaded is valid, also that of a program without settings. -/
theorem valid_of_loadScene {path : Path} (h : loadScene library path (.ok text) = .ok s) :
    s.Valid := by
  rw [loadScene] at h
  split at h
  · rw [Scene.load] at h
    split at h
    · exact valid_of_ofDatum hl h
    · cases h
    · cases h
  · split at h
    · cases h
    · next hblank =>
      have hblank := Bool.eq_false_iff.mpr hblank
      obtain rfl := Except.ok.inj ((ofSource_eq hl _ hblank).symm.trans h)
      exact ⟨hblank, default_writing_valid, nofun⟩

/-- Whatever else is JSON, and a program, is refused by an error of its own. -/
theorem expected_of_loadScene {path : Path}
    (hjson : path.isScene = true → IsJson text ∧ ¬HasLongNumeral text)
    (h : loadScene library path (.ok text) = .error e) : e.IsExpected := by
  rw [loadScene] at h
  split at h
  · next hscene =>
    obtain ⟨hjson, hnumerals⟩ := hjson hscene
    rw [Scene.load] at h
    split at h
    · exact expected_of_ofDatum hl h
    · cases h
      trivial
    · next kind hload => exact absurd hload (hl.load_raises text hjson hnumerals kind)
  · split at h
    · cases h
      trivial
    · next hblank =>
      cases (ofSource_eq hl _ (Bool.eq_false_iff.mpr hblank)).symm.trans h

end Loading

end FieldLang
