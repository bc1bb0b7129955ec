import PatchTriage.Overflow
import PatchTriage.SortedList
import PatchTriage.Text.Utf8

/-!
# Images of program states and their differences

A dump of a program state is an image in the ELF format for 64-bit little-endian machines. Of such
an image the sections with program data count (`Image.sections?`), in the order of their addresses.
An image in another form, or with headers that point outside of it, has no sections.
-/

namespace PatchTriage

structure Section where
  addr : Nat
  data : Bytes
  deriving DecidableEq

namespace Image

/-- Reading a header: it may point outside the image, or to an address past the last word. -/
abbrev Reading := OptionT (Except Overflow)

def littleEndian (bytes : Bytes) : Nat := bytes.foldr (fun b n => b.toNat + 256 * n) 0

def addr (a b : Nat) : Reading Nat := OptionT.lift (Word.add a b)

variable (image : Bytes)

def number (start size : Nat) : Reading Nat := do
  let _ ← addr start size
  let bytes := (image.drop start).take size
  if bytes.length = size then return littleEndian bytes else failure

/-- A word, or no reading where a sum or product of positions does not fit. -/
def checked (n : Nat) : Reading Nat := if n < Word.bound then pure n else failure

def progbits : Nat := 1

def sectionAt (header : Nat) : Reading (Option Section) := do
  let kind ← number image (← addr header 4) 4
  if kind ≠ progbits then return none
  let address ← number image (← addr header 16) 8
  let offset ← number image (← addr header 24) 8
  let size ← number image (← addr header 32) 8
  let stop ← checked (offset + size)
  if stop ≤ image.length then return some ⟨address, (image.drop offset).take size⟩ else failure

/-- Whether the image begins as one for 64-bit little-endian machines. -/
def hasHeader : Bool := 64 ≤ image.length && image.take 6 == [0x7f, 0x45, 0x4c, 0x46, 2, 1]

def headerSize : Nat := 64

def readSections : Reading (List Section) := do
  if !hasHeader image then failure
  let table ← number image 0x28 8
  let entrySize ← number image 0x3a 2
  let count ← number image 0x3c 2
  if entrySize < headerSize then failure
  let entries ← (List.range count).mapM fun index => do
    sectionAt image (← checked (table + index * entrySize))
  return entries.filterMap id

def sections? : Except Overflow (Option (List Section)) := do
  let found ← (readSections image).run
  return found.map fun sections => sections.mergeSort fun a b => a.addr ≤ b.addr

end Image

end PatchTriage

/-!
## Differences of program states

Two images are compared in windows of sixteen bytes, section by section where both have sections,
else as they are. Each window that differs gives a line with its address and the change of every
byte; a section that only one image has gives a line with its first window. The difference of equal
images is empty.
-/

namespace PatchTriage.Snapshot

def windowSize : Nat := 16

structure Window where
  start : Nat
  pairs : List (UInt8 × UInt8)
  deriving DecidableEq

/-- The windows of the remaining pairs; `begun` holds the pairs of the window that starts at
`start`, reversed. -/
def windowsFrom (start : Nat) (begun : List (UInt8 × UInt8)) : List (UInt8 × UInt8) → List Window
  | [] => if begun.isEmpty then [] else [⟨start, begun.reverse⟩]
  | pair :: pairs =>
    if begun.length + 1 = windowSize then
      ⟨start, (pair :: begun).reverse⟩ :: windowsFrom (start + windowSize) [] pairs
    else windowsFrom start (pair :: begun) pairs

def windows (old new : Bytes) : List Window := windowsFrom 0 [] (old.zip new)

def Window.isEqual (w : Window) : Bool := w.pairs.all fun (a, b) => a == b

def renderAddress (addr : Nat) : Text := Text.paddedHex 16 addr

def renderBytes (bytes : Bytes) : Text := bytes.flatMap fun b => ' ' :: Text.paddedHex 2 b.toNat

/-- The line of a window of a section at `base`; none if nothing changes. -/
def Window.render (base : Nat) (w : Window) : Except Overflow Text :=
  if w.isEqual then .ok []
  else do
    let addr ← Word.add base w.start
    return renderAddress addr ++ renderBytes (w.pairs.map fun (a, b) => b - a) ++ ['\n']

def diffBytes (base : Nat) (old new : Bytes) : Except Overflow Text := do
  let lines ← (windows old new).mapM (Window.render base)
  return lines.flatten

def renderOneSided (mark : Char) (s : Section) : Text :=
  mark :: ' ' :: renderAddress s.addr ++ renderBytes (s.data.take windowSize) ++ ['\n']

/-- The lines of two lists of sections, both in ascending order of address. -/
def diffSections : (old new : List Section) → Except Overflow Text
  | [], new => .ok (new.flatMap (renderOneSided '+'))
  | a :: old, new => do
    let added := (new.takeWhile (·.addr < a.addr)).flatMap (renderOneSided '+')
    match new.dropWhile (·.addr < a.addr) with
    | [] => return added ++ renderOneSided '-' a ++ (← diffSections old [])
    | b :: rest =>
      if a.addr = b.addr then
        return added ++ (← diffBytes a.addr a.data b.data) ++ (← diffSections old rest)
      else return added ++ renderOneSided '-' a ++ (← diffSections old (b :: rest))

def diffRaw (old new : Bytes) : Except Overflow Text := do
  let lines ← diffBytes 0 old new
  if old.length = new.length then return lines
  else return "size " ++ Text.ofNat old.length ++ ' ' :: Text.ofNat new.length ++ '\n' :: lines

def diff (old new : Bytes) : Except Overflow Text := do
  match ← Image.sections? old, ← Image.sections? new with
  | some a, some b => diffSections a b
  | _, _ => diffRaw old new

end PatchTriage.Snapshot
