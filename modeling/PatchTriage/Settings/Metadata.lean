import PatchTriage.Settings.Layer

/-!
# Metadata

A repair task may come with a JSON document that sets some of the settings: an object, in which
unknown fields do not count, or an array of the values in the order of `Metadata.slots`.
-/

namespace PatchTriage.Metadata

inductive Slot where
  | path (set : Layer → Option Path → Layer)
  | names (set : Layer → List Text → Layer)

def slots : List (Text × Slot) :=
  [("binary_path", .path fun l v => { l with binary := v }),
    ("source_dir", .path fun l v => { l with sourceDir := v }),
    ("build_script", .path fun l v => { l with buildScript := v }),
    ("config_script", .path fun l v => { l with configScript := v }),
    ("pub_test_script", .path fun l v => { l with pubTestScript := v }),
    ("pvt_test_script", .path fun l v => { l with pvtTestScript := v }),
    ("adv_test_script", .path fun l v => { l with advTestScript := v }),
    ("failing_test", .names fun l v => { l with testIds := if v.isEmpty then none else some v }),
    ("patch_dir", .path fun l v => { l with patchDir := v }),
    ("patch_file", .path fun l v => { l with patchFile := v }),
    ("test_oracle", .path fun l v => { l with testOracle := v })]

def textOf? : Json → Option Text
  | .string t => t
  | _ => none

def Slot.fill (l : Layer) : Slot → Json → Option Layer
  | path set, .null => some (set l none)
  | path set, v => (textOf? v).map fun t => set l (some t)
  | names set, .array items => (items.mapM textOf?).map (set l)
  | names _, _ => none

/-- Fills the slots from the fields of an object; a slot may be filled once. -/
def ofFields (filled : List Text) (l : Layer) : List (Option Text × Json) → Option Layer
  | [] => some l
  | (none, _) :: _ => none
  | (some k, v) :: fields =>
    match slots.lookup k with
    | none => ofFields filled l fields
    | some slot =>
      if k ∈ filled then none
      else
        match slot.fill l v with
        | some l => ofFields (k :: filled) l fields
        | none => none

def ofItems (l : Layer) : List (Text × Slot) → List Json → Option Layer
  | _, [] => some l
  | [], _ :: _ => none
  | (_, slot) :: slots, v :: vs =>
    match slot.fill l v with
    | some l => ofItems l slots vs
    | none => none

def parse (bytes : Bytes) : Except Failure Layer :=
  let layer :=
    match Json.parse? bytes with
    | some (.object fields) => ofFields [] {} fields
    | some (.array items) => ofItems {} slots items
    | _ => none
  match layer with
  | some l => .ok l
  | none => .error (.of .json)

end PatchTriage.Metadata
