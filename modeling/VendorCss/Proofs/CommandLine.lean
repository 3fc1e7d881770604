import VendorCss.CommandLine.Arguments
import VendorCss.Proofs.Options

/-!
# The options of a run

The options of a run are layered: what a flag says counts before what the config says, and that before the default. How
grids are written may also be said by the environment, which counts after the config (`options_layered`).

A config that is an object or missing is asked whether it sets the treatment of grids in the way in which it is read. A
config that is an array is not: it is never found to set it, so that a word of the environment counts before it.
-/

namespace VendorCss

/-! ## What is said about grids -/

/-- The treatment of grids that a word of the environment asks for; it asks for none if it writes no grids. -/
def GridMode.asked? (word : Option Text) : Option GridMode :=
  (word.bind GridMode.ofKeyword?).filter GridMode.isEnabled

/-- The treatment of grids that a config sets, if it sets one. -/
def Options.gridSetting? (j : Option Json) : Option GridMode :=
  (j.bind (setting? "grid")).bind Field.grid.decode

/-- Where the treatment of grids is set, the options have it. -/
theorem Options.IsSetBy.gridSetting?_eq {j : Option Json} {o : Options} (h : IsSetBy j o) :
    gridSetting? j = if (j.bind (setting? "grid")).isSome then some o.grid else none := by
  have hgrid : Json.withDefault GridMode.off Field.grid.decode (j.bind (setting? "grid")) = some o.grid := h.grid
  rw [gridSetting?]
  cases hset : j.bind (setting? "grid") with
  | none => rfl
  | some v =>
    rw [hset] at hgrid
    exact hgrid

/-- Where it is not set, they have the default. -/
theorem Options.IsSetBy.grid_eq {j : Option Json} {o : Options} (h : IsSetBy j o) :
    o.grid = (gridSetting? j).getD .off := by
  have hgrid : Json.withDefault GridMode.off Field.grid.decode (j.bind (setting? "grid")) = some o.grid := h.grid
  rw [h.gridSetting?_eq]
  cases hset : j.bind (setting? "grid") with
  | none =>
    rw [hset] at hgrid
    exact (Option.some.inj hgrid).symm
  | some v => rfl

/-! ## Configs -/

namespace Config

/-- The config that a file describes, if there is one, and of a run without a file. -/
def ofFile (file : Option Text) : Except ConfigFileError Config := (file.map ofText).getD (.ok {})

/-- A config has the options that its JSON sets, and knows that the treatment of grids is set if the JSON has a member
of that name. -/
theorem of_ofFile {file : Option Text} {c : Config} (h : ofFile file = .ok c) :
    c.options.IsSetBy (file.bind Json.parse?) ∧
      c.setsGrid = ((file.bind Json.parse?).bind (Json.get? "grid")).isSome := by
  cases file with
  | none =>
    obtain rfl : {} = c := Except.ok.inj h
    exact ⟨Options.isSetBy_none, rfl⟩
  | some t =>
    rw [ofFile, Option.map_some, Option.getD_some, ofText] at h
    rw [Option.bind_some]
    cases hparse : (Json.parse? t).filter Json.isModest with
    | none => rw [hparse] at h; cases h
    | some j =>
      obtain ⟨hj, -⟩ := Option.filter_eq_some_iff.1 hparse
      rw [hparse] at h
      rw [hj]
      cases hread : Options.ofJson j.collapse with
      | error e => simp [hread] at h
      | ok o =>
        obtain rfl : { options := o, setsGrid := (j.get? "grid").isSome } = c := by simpa [hread] using h
        exact ⟨Options.isSetBy_of_ofJson hread, rfl⟩

end Config

/-! ## Layers -/

namespace Arguments

variable {file : Option Text} {c : Config}

theorem options_grid (a : Arguments) (c : Config) (word : Option Text) :
    (a.options c word).grid =
      a.grid.getD (if c.setsGrid then c.options.grid else (GridMode.asked? word).getD c.options.grid) := rfl

/-- The options of a run are, field by field, what the flag says, or else the config, or else the default. The treatment
of grids is what the flag says, or else the config, or else the environment, or else the default; save that a config
that is an array counts after the environment. -/
theorem options_layered (h : Config.ofFile file = .ok c) (a : Arguments) (word : Option Text) :
    let r := a.options c word
    ∃ o : Options, o.IsSetBy (file.bind Json.parse?) ∧
      r.browsers = (if a.browsers = [] then o.browsers else a.browsers) ∧
      r.flexbox = a.flexbox.getD o.flexbox ∧ r.supports = a.supports.getD o.supports ∧
      r.cascade = a.cascade.getD o.cascade ∧ r.add = a.add.getD o.add ∧ r.remove = a.remove.getD o.remove ∧
      ((∀ es, file.bind Json.parse? ≠ some (.array es)) →
        r.grid = ((a.grid.or (Options.gridSetting? (file.bind Json.parse?))).or (GridMode.asked? word)).getD .off) ∧
      ∀ es, file.bind Json.parse? = some (.array es) →
        r.grid = ((a.grid.or (GridMode.asked? word)).or (Options.gridSetting? (some (.array es)))).getD .off := by
  intro r
  obtain ⟨hset, hgrid⟩ := Config.of_ofFile h
  refine ⟨c.options, hset, ?_, rfl, rfl, rfl, rfl, rfl, fun hnot => ?_, fun es hes => ?_⟩
  · cases hb : a.browsers <;> simp [r, options, hb]
  · have hsame : (file.bind Json.parse?).bind (Json.get? "grid") =
        (file.bind Json.parse?).bind (Options.setting? "grid") := by
      cases hj : file.bind Json.parse? with
      | none => rfl
      | some j =>
        cases j with
        | array es => exact absurd hj (hnot es)
        | _ => rfl
    have hown := hset.gridSetting?_eq
    have hdefault := hset.grid_eq
    rw [← hsame, ← hgrid] at hown
    rw [hown] at hdefault ⊢
    rw [show r.grid = _ from options_grid a c word]
    cases hsets : c.setsGrid with
    | true => cases a.grid <;> rfl
    | false =>
      rw [hsets] at hdefault
      rw [show c.options.grid = .off from hdefault]
      cases a.grid <;> cases GridMode.asked? word <;> rfl
  · have hsets : c.setsGrid = false := by rw [hgrid, hes]; rfl
    have hdefault := hset.grid_eq
    rw [hes] at hdefault
    rw [show r.grid = _ from options_grid a c word, hsets, hdefault]
    cases a.grid <;> cases GridMode.asked? word <;> rfl

/-- An object that switches grids on and then off. -/
def gridsOffObject : Text := "\x7b\"cascade\": false, \"grid\": true, \"grid\": false\x7d"

/-- An array that switches grids off. -/
def gridsOffArray : Text := "[[\"ie 10\"], \"no-2009\", false]"

theorem parse_gridsOffObject : Json.parse? gridsOffObject =
    some (.object [("cascade", .bool false), ("grid", .bool true), ("grid", .bool false)]) := by
  cbv

theorem ofFile_gridsOffObject :
    Config.ofFile (some gridsOffObject) = .ok { options := { cascade := false }, setsGrid := true } := by
  have hread : Options.ofJson (.object [("cascade", .bool false), ("grid", .bool false)]) =
      .ok { cascade := false } := by
    rw [Options.ofJson, List.mergeSort_of_pairwise (by decide)]
    rfl
  rw [Config.ofFile, Option.map_some, Option.getD_some, Config.ofText, parse_gridsOffObject]
  have hcollapse : Json.collapse (.object [("cascade", .bool false), ("grid", .bool true), ("grid", .bool false)]) =
      .object [("cascade", .bool false), ("grid", .bool false)] := rfl
  rw [Option.filter_some, if_pos (by decide)]
  dsimp only
  rw [hcollapse, hread]
  rfl

theorem parse_gridsOffArray : Json.parse? gridsOffArray =
    some (.array [.array [.string "ie 10"], .string "no-2009", .bool false]) := by
  cbv

theorem ofFile_gridsOffArray :
    Config.ofFile (some gridsOffArray) = .ok { options := { browsers := ["ie 10"], flexbox := .no2009 } } := by
  rw [Config.ofFile, Option.map_some, Option.getD_some, Config.ofText, parse_gridsOffArray]
  rfl

/-- A word counts after the object, and before the array. -/
theorem options_layered_switchedOff :
    let c : Config := { options := { cascade := false }, setsGrid := true }
    let d : Config := { options := { browsers := ["ie 10"], flexbox := .no2009 } }
    let a : Arguments := { browsers := ["chrome 20"] }
    Config.ofFile (some gridsOffObject) = .ok c ∧ (a.options c (some "autoplace".toList)).grid = .off ∧
      Config.ofFile (some gridsOffArray) = .ok d ∧ (a.options d (some "autoplace".toList)).grid = .autoplace := by
  intro c d a
  obtain ⟨o, -, -, -, -, -, -, -, hgrid, -⟩ := options_layered ofFile_gridsOffObject a (some "autoplace".toList)
  obtain ⟨o', -, -, -, -, -, -, -, -, hgrid'⟩ := options_layered ofFile_gridsOffArray a (some "autoplace".toList)
  rw [Option.bind_some, parse_gridsOffObject] at hgrid
  rw [Option.bind_some, parse_gridsOffArray] at hgrid'
  exact ⟨ofFile_gridsOffObject, hgrid nofun, ofFile_gridsOffArray, hgrid' _ rfl⟩

end Arguments

end VendorCss
