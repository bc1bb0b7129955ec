import PatchTriage.Text.Category

/-!
# Printable characters

Two properties that decide whether a quoted text shows a character as it is, as of Unicode 17:
characters without a glyph of their own (controls, formats, fillers, unassigned and private code
points, and separators other than the space), and characters that extend the one before them. The
half-width voice marks take a cell of their own and so do not count as extending.
-/

namespace PatchTriage.Text

def unprintableChars : CharSet :=
  .ofTexts "Zs Zl Zp Cc Cf Co Cn" "BGpaFImbCKibDieJPlaCZMqpPlaBWMVoJf"
    "BgaDFbaiaBLdaEyaxaShaEOfodlDvBxKgbBPnaBHmcCVdaBRidSrbkaBSQmrvaBFTiUdDAgBzBGnzBMlBleBcjbLvfjiBif
  BGacMhjcadacBlcjcadacdcjcbjbBCwtBOnjDjhDlBhpjQxBrfjKtqcBoeBcHXdarvlFXqKZuCfEOlCfLjydyLbeJCkhBXgBfD
  uEkNJcaBjaKCpJseQthwqqBLotERifKcCjBiaBPxBpIhBqfaHlBecvjbGAbaeaFwDxIjjfbpiOqdBecqdeCecafpdlfjIdBvCS
  XrgIWhlLCdXxNZvMOn"

def extenders : CharSet :=
  .ofTexts "Mn Me Cf"
    "DGpaLjazaNvazaDzazaIzacafbcbkbEaazaEqaqaJfaDDnaBfaBJnodlCwigbDyaCubHRfbBTWuaEfaBLThePhfBBdaEnam
  aJtapakaDtadfcadaccfccapbHyanaJiaKdaYkanaVbacccaBJmbCbegcyaHXuahoQYzlecFPhbBKXobhfFSvaBQzdJvbJkada
  ibga"
    "GraCAlfxaHlaByaOvbDdaFTkaDAracDuDGHkJsGJaaqaCKfaLAgiBZRcdHWyhBTKZna"

def isPrintable (c : Char) : Bool := !unprintableChars.holds c

def isExtender (c : Char) : Bool := extenders.holds c

/-! ## Quoted texts

Messages show a text between double quotes, with an escape for every character that would not be
seen as it is. -/

def codeEscape (c : Char) : Text := "\\u\x7b" ++ hexOfNat c.toNat ++ ['\x7d']

def quotedChar (c : Char) : Text :=
  if c = '\x00' then ['\\', '0']
  else if c = '\t' then ['\\', 't']
  else if c = '\r' then ['\\', 'r']
  else if c = '\n' then ['\\', 'n']
  else if c = '"' then ['\\', '"']
  else if c = '\\' then ['\\', '\\']
  else if isExtender c || !isPrintable c then codeEscape c
  else [c]

def quoted (t : Text) : Text := '"' :: t.flatMap quotedChar ++ ['"']

end PatchTriage.Text
