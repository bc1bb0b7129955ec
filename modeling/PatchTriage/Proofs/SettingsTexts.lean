import PatchTriage.Proofs.DiffFiles
import PatchTriage.Proofs.Texts
import PatchTriage.Settings.ConfigText

/-!
# Settings files one behind the other

Layers with `Layer.overlay` are a monoid, which goes setting by setting (`Layer.values_overlay`). A
settings file sets the overlay of what its lines set (`ConfigText.parseLines_eq`), so that a file
behind another one is a layer over the other (`ConfigText.parse_append`).
-/

namespace PatchTriage

open List Text Layer

/-! ## Layers -/

namespace Layer

inductive Value where
  | text (t : Text)
  | texts (list : List Text)
  | number (n : Nat)
  | switch (b : Bool)

def values (x : Layer) : List (Option Value) :=
  [x.binary.map .text, x.sourceFile.map .text, x.sourceDir.map .text, x.outputDir.map .text,
    x.patchDir.map .text, x.patchFile.map .text, x.testIds.map .texts, x.testOracle.map .text,
    x.testSuite.map .text, x.pubTestScript.map .text, x.pvtTestScript.map .text,
    x.advTestScript.map .text, x.buildScript.map .text, x.configScript.map .text,
    x.patchCommand.map .text, x.patchScript.map .text, x.resetCommand.map .text,
    x.resetScript.map .text, x.patchMode.map .text, x.execMode.map .text,
    x.timeoutMinutes.map .number, x.testTimeoutSecs.map .number, x.taskTimeoutSecs.map .number,
    x.limit.map .number, x.perDirLimit.map .number, x.tag.map .text, x.debug.map .switch,
    x.partition.map .switch, x.onlyValidate.map .switch, x.traceDistance.map .switch,
    x.pluginDir.map .text]

theorem values_injective : Function.Injective values := by
  intro x y h
  have hmap {α : Type} {f : α → Value} (hf : ∀ a b, f a = f b → a = b) (a b : Option α) :
      a.map f = b.map f ↔ a = b := (Option.map_injective fun a b => hf a b).eq_iff
  cases x
  cases y
  simpa only [values, cons.injEq, hmap fun _ _ => Value.text.inj, and_true, mk.injEq,
    hmap fun _ _ => Value.texts.inj, hmap fun _ _ => Value.number.inj,
    hmap fun _ _ => Value.switch.inj] using h

theorem values_overlay (x y : Layer) :
    (x.overlay y).values = zipWith (fun base top => top <|> base) x.values y.values := by
  have hmap {α : Type} (f : α → Value) (a b : Option α) :
      (b <|> a).map f = (b.map f <|> a.map f) := by cases b <;> rfl
  simp only [values, overlay, hmap, zipWith_cons_cons, zipWith_nil_left]

theorem overlay_assoc (x y z : Layer) : (x.overlay y).overlay z = x.overlay (y.overlay z) := by
  have hassoc {α : Type} (a b c : Option α) : (c <|> b <|> a) = ((c <|> b) <|> a) := by
    cases c <;> rfl
  simp only [overlay, hassoc]

theorem empty_overlay (x : Layer) : ({} : Layer).overlay x = x := by
  have hnone {α : Type} (a : Option α) : (a <|> none) = a := by cases a <;> rfl
  simp only [overlay, hnone]

end Layer

/-! ## Lines -/

namespace Text

theorem trim_dropReturn (line : Text) : trim (dropReturn line) = trim line := by
  rw [dropReturn]
  split
  · rename_i hlast
    obtain ⟨s, rfl⟩ := getLast?_eq_some_iff.1 hlast
    have hreturn : ∀ c ∈ ['\r'], isBlank c = true := forall_mem_singleton.2 rfl
    rw [dropLast_concat]
    exact (trim_between (a := []) (by simp) hreturn s).symm
  · rfl

/-- The last line of a text, with the line feed that ends it and without. -/
theorem lines_ended (t : Text) : ∃ before last, lines (t ++ ['\n']) = before ++ [dropReturn last] ∧
      lines t = before ++ if last = [] then [] else [last] := by
  have hne := splitOn_ne_nil '\n' t
  have hpieces := dropLast_append_getLast hne
  refine ⟨(splitOn '\n' t).dropLast.map dropReturn, (splitOn '\n' t).getLast hne, ?_, ?_⟩
  · have hended : splitOn '\n' (t ++ ['\n']) = splitOn '\n' t ++ [[]] := splitOn_append '\n' t []
    rw [lines, hended, ← map_singleton, ← map_append, hpieces]
    simp
  · rw [lines, getLast?_eq_getLast_of_ne_nil hne]
    cases (splitOn '\n' t).getLast hne <;> simp

end Text

/-! ## Settings files -/

namespace ConfigText

/-- Whether setting a value puts a layer with this value over the layer that it is set in. -/
def Setter.Overlays (s : Setter) : Prop :=
  ∀ key value set, s key value = .ok set → ∀ l, set l = l.overlay (set {})

theorem overlays_reading {α : Type} {read : Text → Text → Except Failure α}
    {set : α → Layer → Layer}
    (hset : ∀ v l, set v l = l.overlay (set v {})) : (reading read set).Overlays := by
  intro key value f h l
  rw [reading] at h
  cases hread : read key value with
  | error e => simp [hread, Except.map] at h
  | ok v =>
    rw [hread] at h
    cases h
    exact hset v l

theorem overlays_setters : ∀ e ∈ setters, e.2.Overlays := by
  simp only [setters, text, testIds, number, switch, forall_mem_cons]
  repeat refine ⟨overlays_reading fun _ _ => rfl, ?_⟩
  exact forall_mem_nil _

/-- **A line sets a layer over those before it.** -/
theorem overlay_of_parseLine {number : Nat} {line : Text} {set : Layer → Layer}
    (h : parseLine number line = .ok set) (l : Layer) : set l = l.overlay (set {}) := by
  rw [parseLine] at h
  split at h
  · cases h
    rfl
  · cases hcut : cut? ':' (trim line) with
    | none => simp [hcut] at h
    | some parts =>
      cases hkey : setters.lookup (trim parts.1) with
      | none => simp [hcut, hkey] at h
      | some setter =>
        simp only [hcut, hkey] at h
        obtain ⟨before, after, hsplit, -⟩ := lookup_eq_some_iff.1 hkey
        exact overlays_setters (trim parts.1, setter) (hsplit ▸ by simp) _ _ set h l

def lineLayer? (line : Text) : Option Layer := (parseLine 0 line).toOption.map (· {})

def layer? : List Text → Option Layer
  | [] => some {}
  | line :: lines => do return (← lineLayer? line).overlay (← layer? lines)

theorem toOption_parseLine (number : Nat) (line : Text) :
    (parseLine number line).toOption.map (· {}) = lineLayer? line := by
  rw [lineLayer?, parseLine, parseLine]
  split
  · rfl
  · cases cut? ':' (trim line) with
    | none => rfl
    | some parts =>
      cases hkey : setters.lookup (trim parts.1) with
      | none =>
        simp only [hkey]
        rfl
      | some setter => simp only [hkey]

/-- **A file sets what its lines set.**  Their numbers count in messages only. -/
theorem parseLines_eq (number : Nat) (below : Layer) (lines : List Text) :
    (parseLines number below lines).toOption = (layer? lines).map below.overlay := by
  induction lines generalizing number below with
  | nil => rfl
  | cons line lines ih =>
    rw [parseLines, layer?, ← toOption_parseLine number]
    cases hline : parseLine number line with
    | error f => rfl
    | ok set =>
      show (parseLines (number + 1) (set below) lines).toOption = _
      rw [ih, overlay_of_parseLine hline below]
      cases layer? lines with
      | none => rfl
      | some above => exact congrArg some (overlay_assoc below (set {}) above)

theorem parse_eq (t : Text) : (parse t).toOption = layer? (lines t) := by
  rw [parse, parseLines_eq]
  cases layer? (lines t) with
  | none => rfl
  | some x => exact congrArg some (empty_overlay x)

theorem layer?_append (lines more : List Text) :
    layer? (lines ++ more) = do return (← layer? lines).overlay (← layer? more) := by
  induction lines with
  | nil =>
    cases h : layer? more with
    | none => simp [layer?, h]
    | some x => simp [layer?, h, empty_overlay]
  | cons line lines ih =>
    rw [cons_append, layer?, layer?, ih]
    cases lineLayer? line with
    | none => rfl
    | some x =>
      cases layer? lines with
      | none => rfl
      | some y =>
        cases layer? more with
        | none => rfl
        | some z => exact congrArg some (overlay_assoc x y z).symm

/-- A line is read without the white space around it, and none of it sets nothing. -/
theorem layer?_ended (t : Text) : layer? (lines (t ++ ['\n'])) = layer? (lines t) := by
  obtain ⟨before, last, hended, hplain⟩ := lines_ended t
  have htrim : lineLayer? (dropReturn last) = lineLayer? last := by
    rw [lineLayer?, lineLayer?, parseLine, trim_dropReturn, parseLine]
  rw [hended, hplain, layer?_append, layer?_append]
  by_cases hlast : last = []
  · rw [hlast, if_pos rfl]
    rfl
  · rw [if_neg hlast, layer?, htrim]
    rfl

theorem toOption_parse_append (a b : Text) : (parse (a ++ '\n' :: b)).toOption =
      do return (← (parse a).toOption).overlay (← (parse b).toOption) := by
  have hcut : a ++ '\n' :: b = a ++ ['\n'] ++ b := by simp
  rw [parse_eq, parse_eq, parse_eq, hcut, lines_append (.inr (by simp)),
    layer?_append, layer?_ended]

/-- **A settings file behind another one is a layer over it.**  The two can be read together exactly
if each of them can. Layers put over each other are a monoid, and each of the 31 settings is the one
of the layer on top, where that has it. -/
theorem parse_append :
    (∀ a b : Text, ((∃ z, parse (a ++ '\n' :: b) = .ok z) ↔
        (∃ x, parse a = .ok x) ∧ ∃ y, parse b = .ok y) ∧
      ∀ x y, parse a = .ok x → parse b = .ok y → parse (a ++ '\n' :: b) = .ok (x.overlay y)) ∧
    (∀ x y z : Layer, (x.overlay y).overlay z = x.overlay (y.overlay z)) ∧
    (∀ x : Layer, x.overlay {} = x ∧ ({} : Layer).overlay x = x) ∧
    ∀ x y : Layer, x.values.length = 31 ∧ (x.values = y.values ↔ x = y) ∧
      (x.overlay y).values = zipWith (fun base top => top <|> base) x.values y.values := by
  refine ⟨fun a b => ?_, overlay_assoc, fun x => ⟨rfl, empty_overlay x⟩,
    fun x y => ⟨rfl, values_injective.eq_iff, values_overlay x y⟩⟩
  have hok {r : Except Failure Layer} {x : Layer} : r = .ok x ↔ r.toOption = some x := by
    cases r <;> simp [Except.toOption]
  simp only [hok, toOption_parse_append]
  cases (parse a).toOption <;> cases (parse b).toOption <;> simp

theorem parse_append_limits :
    parse "tag:x\nlimit:3\r" = .ok { tag := some "x", limit := some 3 } ∧
    parse "# more\npatch_limit: 5" = .ok { limit := some 5 } ∧
    parse "tag:x\nlimit:3\r\n# more\npatch_limit: 5" =
      .ok { tag := some "x", limit := some 5 } := by
  have hbase : parse "tag:x\nlimit:3\r" = .ok { tag := some "x", limit := some 3 } := by
    decide
  have htop : parse "# more\npatch_limit: 5" = .ok { limit := some 5 } := by decide
  exact ⟨hbase, htop, (parse_append.1 _ _).2 _ _ hbase htop⟩

end ConfigText

end PatchTriage
