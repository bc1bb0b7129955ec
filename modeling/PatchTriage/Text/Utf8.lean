import PatchTriage.Text.Basic

/-!
# Bytes and texts

Texts are stored as UTF-8. Reading bytes back cuts them into characters and stretches that begin
none (`Utf8.decode`): a stretch ends where the bytes stop being the beginning of some character. A
strict reader refuses bytes with such a stretch, a lenient one shows it as U+FFFD. The shell works
on bytes, each written as the character with its number (`Raw`).
-/

namespace PatchTriage

abbrev Bytes := List UInt8

namespace Utf8

def encode (t : Text) : Bytes := t.flatMap String.utf8EncodeChar

def isTail (b : UInt8) : Bool := 0x80 ≤ b && b ≤ 0xbf

/-- Whether `b` may come second, after the leading byte `a` of three or four bytes. -/
def isSecond (a b : UInt8) : Bool :=
  if a = 0xe0 then 0xa0 ≤ b && b ≤ 0xbf
  else if a = 0xed then 0x80 ≤ b && b ≤ 0x9f
  else if a = 0xf0 then 0x90 ≤ b && b ≤ 0xbf
  else if a = 0xf4 then 0x80 ≤ b && b ≤ 0x8f
  else isTail b

def tailBits (b : UInt8) : Nat := b.toNat % 64

/-- The character that `a` and the bytes after it begin with, or none where they begin no
character, and how many of the bytes after `a` belong to it. -/
def unit (a : UInt8) (rest : Bytes) : Option Char × Nat :=
  if a < 0x80 then (some (Char.ofNat a.toNat), 0)
  else if 0xc2 ≤ a && a ≤ 0xdf then
    match rest with
    | b :: _ =>
      if isTail b then (some (Char.ofNat (a.toNat % 32 * 64 + tailBits b)), 1) else (none, 0)
    | [] => (none, 0)
  else if 0xe0 ≤ a && a ≤ 0xef then
    match rest with
    | b :: rest =>
      if isSecond a b then
        match rest with
        | c :: _ =>
          if isTail c then
            (some (Char.ofNat ((a.toNat % 16 * 64 + tailBits b) * 64 + tailBits c)), 2)
          else (none, 1)
        | [] => (none, 1)
      else (none, 0)
    | [] => (none, 0)
  else if 0xf0 ≤ a && a ≤ 0xf4 then
    match rest with
    | b :: rest =>
      if isSecond a b then
        match rest with
        | c :: rest =>
          if isTail c then
            match rest with
            | d :: _ =>
              if isTail d then
                (some (Char.ofNat (((a.toNat % 8 * 64 + tailBits b) * 64 + tailBits c) * 64 +
                  tailBits d)), 3)
              else (none, 2)
            | [] => (none, 2)
          else (none, 1)
        | [] => (none, 1)
      else (none, 0)
    | [] => (none, 0)
  else (none, 0)

/-- Decodes while the next `skip` bytes belong to a unit already read. -/
def decodeFrom : (skip : Nat) → Bytes → List (Option Char)
  | _, [] => []
  | skip + 1, _ :: bytes => decodeFrom skip bytes
  | 0, b :: bytes =>
    let (c, n) := unit b bytes
    c :: decodeFrom n bytes

/-- The characters of the bytes, and none for each stretch that begins no character. -/
def decode (bytes : Bytes) : List (Option Char) := decodeFrom 0 bytes

def strict? (bytes : Bytes) : Option Text := (decode bytes).mapM id

def lenient (bytes : Bytes) : Text := (decode bytes).map fun c => c.getD (Char.ofNat 0xfffd)

end Utf8

namespace Bytes

def hex (bytes : Bytes) : Text := bytes.flatMap fun b => Text.paddedHex 2 b.toNat

end Bytes

abbrev Raw := Text

namespace Raw

def ofBytes (b : Bytes) : Raw := b.map fun x => Char.ofNat x.toNat

def toBytes (t : Raw) : Bytes := t.map fun c => UInt8.ofNat c.toNat

def ofText (t : Text) : Raw := ofBytes (Utf8.encode t)

def toText (t : Raw) : Text := Utf8.lenient (toBytes t)

end Raw

end PatchTriage
