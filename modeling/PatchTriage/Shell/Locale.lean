import PatchTriage.Shell.Pattern
import PatchTriage.Text.Lowercase

/-!
# Locales

What bytes are to the programs of the host: characters each, or UTF-8, with its classes of
characters and the capital and small letters that belong together.
-/

namespace PatchTriage.Shell.Letters

/-! ## Letters -/

open Text

def letters : CharSet :=
  CharSet.ofTexts "Lu Ll Lt Lm Lo Mn Mc Nd Nl" "NXmBzGSHzzhzhz"
    "BwjBBjCqcBpKqeKgBeGnaFfbkcDgkGfikaBbbuaBscCjhBrjnbjfCzaraedEaaraBxaCkaraEharaBwcCjaraiaEqaEhara
  EharaEgbraEvaEvfcaEeaoeCybBc-efbCracbClaEjacbBExcBKnbBfaEybukkaBuccaLmcLhavhdaBxnekEbaqaBniCdbCham
  bCqaFxccufahadcHrBmpkBBtmfaelEOdcFmaBAhfEcbBSQfanbElbKraBmaFwaBcrCgcBmaDsanaJvacaCbaJmbBFCdprpBLma
  ItaCUicfaGkbBRckBydHlaBqapaCgbErbClaCzajdEbbGxbDdbrazgeeHyaeayaDwbJsbExaEpbEmaKkbJzbfaGbaDfbtaDdbQ
  gaJzacbDeaBDHpeCigBUcaBDBlaGZbBtdwUxeefjhdgBfdFtcCYeCcfBxjapaxecoCMbgOmaCkdCFxgEgcccBTCIwJf"

def capitals : CharSet := CharSet.ofTexts "Lu Lt" "MQqpBGhzGSIzzhzhz" ""

def smalls : CharSet :=
  CharSet.ofTexts "Ll"
    "GoaqaKhadadaBnaHiiibBfeDtaCbaFDaaEQaCkoaBjBkBAoaoarmIepBGrzCWpbBUGlbIdaFacebBHjdkaBIWtadccBpci"
    ""

def printed : CharSet :=
  CharSet.ofTexts "Lu Ll Lt Lm Lo Mn Mc Me Nd Nl No Pc Pd Ps Pe Pi Pf Po Sm Sc Sk So Zs Cf Co" "" ""

def recent : List Stretch := readStretches "KUzaCATebcaeacagacaBMKyvBKVjy"

def small (c : Char) : Char :=
  if c.toNat = 0x130 then 'i'
  else if inStretches c recent then c
  else smallLetter c

def variants : List (Stretch × Int) :=
  readImages "GzaBCpEua-IyDaa-LoCsa-bda-bda-bBna-bNbaDgEva-Bfoa-Ckba-Cfea-Bvba-CcBaa-Diba-Dcea-DsJHr
  a-JGoba-JGnba-JGebb-JGcba-JGdba-JFwba-JDtbaCAEkUla-ChLfa-KRd"

def capital (c : Char) : Char :=
  if c.toNat < 128 then c.toUpper
  -- the capital sharp s has a small letter, but it is not the capital letter of that
  else if c.toNat = 0xdf then c
  else ((codesFor c smallImages).find? fun d => !inStretches d recent).getD (imageOf c variants)

end PatchTriage.Shell.Letters

namespace PatchTriage.Shell

inductive Locale where
  | bytes
  | utf8
  deriving DecidableEq

namespace Locale

variable (l : Locale)

/-! ## The locale of a process -/

def named? (name : Raw) : Option Locale :=
  match name.takeWhile (· ≠ '@') with
  | ['C'] => some .bytes
  | 'C' :: '.' :: codes =>
    if (codes.filter Char.isAlphanum).map Char.toLower = "utf8".toList then some .utf8 else none
  | general => if general = "POSIX".toList then some .bytes else none

def parts : List Raw :=
  ["LC_CTYPE", "LC_NUMERIC", "LC_TIME", "LC_COLLATE", "LC_MONETARY", "LC_MESSAGES", "LC_PAPER",
    "LC_NAME", "LC_ADDRESS", "LC_TELEPHONE", "LC_MEASUREMENT", "LC_IDENTIFICATION"]

/-- The locale that variables ask for: the one for all parts comes first, then those for a part,
then the general one. An unknown part asks for nothing. -/
def of (value? : Raw → Option Raw) : Locale :=
  let given (name : Raw) : Option Raw := (value? name).filter (!·.isEmpty)
  let part (name : Raw) : Option Locale :=
    named? ((given "LC_ALL" <|> given name <|> given "LANG").getD ['C'])
  match parts.mapM part with
  | some (l :: _) => l
  | _ => .bytes

/-! ## Characters -/

def strayChar (b : Char) : Char := Char.ofNat (0x10ff00 + b.toNat)

variable (c : Char)

def isStray : Bool := 0x10ff00 ≤ c.toNat

def decodeFrom : (skip : Nat) → Raw → Text
  | _, [] => []
  | skip + 1, _ :: t => decodeFrom skip t
  | 0, b :: t =>
    match Utf8.unit (UInt8.ofNat b.toNat) (Raw.toBytes (t.take 3)) with
    | (some c, n) => c :: decodeFrom n t
    | (none, _) => strayChar b :: decodeFrom 0 t

def decode (t : Raw) : Text :=
  match l with
  | .bytes => t
  | .utf8 => decodeFrom 0 t

def isSound : Bool := l = .bytes || !isStray c

def numbered : Char := if l.isSound c then c else Char.ofNat (c.toNat - 0x10ff00)

def encodeChar : Raw :=
  match l with
  | .bytes => [c]
  | .utf8 => if isStray c then [Char.ofNat (c.toNat - 0x10ff00)] else Raw.ofText [c]

def encode (t : Text) : Raw :=
  match l with
  | .bytes => t
  | .utf8 => t.flatMap (encodeChar .utf8)

open Letters

def lower : Char :=
  match l with
  | .bytes => c.toLower
  | .utf8 => small c

def upper : Char :=
  match l with
  | .bytes => c.toUpper
  | .utf8 => capital c

def isFarBlank : Bool := Text.inStretches c (Text.readStretches "INoaDPogccDhaFXxa")

def farHolds (name : Raw) (c : Char) : Bool :=
  let isSpace := isFarBlank c || c.toNat = 0x2028 || c.toNat = 0x2029
  let isPrinted := !isStray c && printed.holds c
  match String.ofList name with
  | "alpha" | "alnum" => letters.holds c
  | "upper" => capitals.holds c
  | "lower" => smalls.holds c
  | "blank" => isFarBlank c
  | "space" => isSpace
  | "cntrl" => Text.inStretches c (Text.readStretches "EyBfLYnb")
  | "print" => isPrinted
  | "graph" => isPrinted && !isSpace
  | "punct" => isPrinted && !isSpace && !letters.holds c
  | _ => false

def holds? (l : Locale) (name : Raw) : Option (Char → Bool) :=
  match l with
  | .bytes => CharClass.holds? name
  | .utf8 =>
    (CharClass.holds? name).map fun near c => if c.toNat < 128 then near c else farHolds name c

def isWordChar : Bool := c.isAlphanum || c = '_' || (l = .utf8 && 128 ≤ c.toNat && letters.holds c)

def isSpace : Bool :=
  c = ' ' || ('\t' ≤ c && c ≤ '\r') || (l = .utf8 && 128 ≤ c.toNat && farHolds "space" c)

def isPrinted : Bool := (' ' ≤ c && c ≤ '~') || (l = .utf8 && 128 ≤ c.toNat && farHolds "print" c)

end Locale

end PatchTriage.Shell
