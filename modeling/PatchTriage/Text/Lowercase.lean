import PatchTriage.Text.Category

/-!
# Case of characters

Which characters have case, which are passed over when the neighbour of a letter is sought, and the
lower case of every character whose lower case is one other character.
-/

namespace PatchTriage.Text

def casedChars : CharSet :=
  .ofTexts "Lu Ll Lt Lm" "GoaqaZbaJOubBVqBfBFrBzBXOsrvaBMKdvlvBKUdydyBQNyfKcCjGJbzhzhz"
    "ZlaBkghlBbcFeaSraIxDFyDLhBTuGKwBTRpElaFwiEbaWlLhBFZwBvCZqbBLUcdBQmYKhSQrgDBia"

/-- The characters that are passed over when a cased neighbour is sought. -/
def caseIgnorableChars : CharSet :=
  .ofTexts "Lm Mn Me Sk Cf"
    "BnahamaEvaBBsaSeaFtaZzaCJfaEOfodlBYzbladaBZLaaBGQcaCladaGwahamaFJwaBbecaNeaCbfBGcaOofo-epbCVuac
  ccaYdaLjbCbegacayaHXnhhoQYzlecEOvcBpbYwbBQNdCjBiaBQyeJvbJkadaibgaka"
    "EBSga"

def smallImages : List (Stretch × Int) :=
  readImages "HkwBgcgBgBi-Bube-ebd-obd-Bsbca-Erb-ebeaIcb-cbcaHybabcbHxbabdaDbbaHubaHvbabcaHxbaHzcaId
  baIbbabeaIdbaIfcaIgb-ebcaIkbabcaIkdabcaIkbabcbIjb-cbcaIlbabeabiacbabcacbabcacb-qbd-qbdacb-cbca-Dtb
  a-Ceb-Bmbca-Fac-qbiaPZfbabca-GhbaPZcdabca-HnbaCrbaCtb-ibLe-cbeabjaEmhaBmccBlcaCmcbClcqBgciBgBkaij-
  wbga-Cidabca-hbabdc-FabpDcbBfBgBx-Bgbk-Cabcapb-mbd-DqbdBlBwEHeBlKTkcaKTkgaKTkBBvDbCFMubfiDGmabhBq-
  ELsdc-ELsMj-Fsbka-LGxc-Dqbkh-ijf-ilh-ijh-ijf-im-g-ijh-izh-ijh-ijh-ijb-ibb-Cwba-jmd-Diba-jmb-ibb-Dw
  nb-ibb-Eiba-hmb-Eybb-Ewba-jLma-LDdea-MKlba-MFuhaBcBupquabBFnzBaCSvBvBwBxabca-PXfba-FQsba-PWpd-ebca
  -PYqba-PXlba-PYtba-PYscabdabjb-PZzb-Dubj-cbfabBTYk-Bsbu-BabFg-mbe-Cibl-cbca-CAGyb-ibfabca-CKOed-cb
  e-sbca-CKPgba-CKPrba-CKPnba-CKPdba-CKPgca-CKNiba-CKOgba-CKNlbaBJsb-obca-Bwba-CKPfba-CAIyb-cbca-CKQ
  pb-obca-CKYzzabBHAizBgBVaBnBoFhBjBoGbkBncoBncgBncbBnCQdByCmGcvBgEGpBfBgBGJxBfBgCnyBbBUIaBhBi"

def isCased (c : Char) : Bool := casedChars.holds c

/-- Whether the character is passed over when a cased neighbour is sought. -/
def isCaseIgnorable (c : Char) : Bool := caseIgnorableChars.holds c

/-- The small letter of a capital letter, and any other character itself. -/
def smallLetter (c : Char) : Char := if c.toNat < 128 then c.toLower else imageOf c smallImages

/-!
## Lower case

`Text.lowercase` puts a text into lower case. Two capital letters need more than the table: the
dotted capital I becomes two characters, and a capital sigma takes its final form at the end of a
word, that is, after a cased character and not before one.
-/

def meetsCased (t : Text) : Bool :=
  match (t.dropWhile isCaseIgnorable).head? with
  | some c => isCased c
  | none => false

/-- The lower case of `c` between the texts `before`, reversed, and `after`. -/
def lowerChar (before : Text) (c : Char) (after : Text) : Text :=
  if c = 'Σ' then [if meetsCased before && !meetsCased after then 'ς' else 'σ']
  else if c = 'İ' then ['i', Char.ofNat 0x307]
  else [smallLetter c]

def lowercaseFrom (before : Text) : Text → Text
  | [] => []
  | c :: t => lowerChar before c t ++ lowercaseFrom (c :: before) t

def lowercase (t : Text) : Text := lowercaseFrom [] t

end PatchTriage.Text
