import PatchTriage.Patch.Inserted

/-!
# Inserted statements

One inserted line is read as one statement of a C-like language (`Statement.parse?`). Reading is
by shape only: a keyword in front, an assignment operator anywhere, or a call in front.
-/

namespace PatchTriage

open Text

inductive Statement where
  | returns (text : Text)
  | ifs (header : Text)
  | whiles (condition : Text)
  | fors (init condition increment : Text)
  | assignment (text : Text) (compound : Bool)
  | call (text : Text)
  | other (text : Text)
  deriving DecidableEq

namespace Statement

/-! ## Cleaning a line -/

variable (t : Text)

/-- A text without its block comments. A comment that is not closed is kept. -/
def dropComments : Text := go none t
where
  /-- Goes on with the text `kept` since the opening of a comment, if one is open. -/
  go : (kept : Option Text) → Text → Text
    | none, '/' :: '*' :: t => go (some ['*', '/']) t
    | none, c :: t => c :: go none t
    | none, [] => []
    | some _, '*' :: '/' :: t => go none t
    | some kept, c :: t => go (some (c :: kept)) t
    | some kept, [] => kept.reverse

/-- The text of a line without tabs, block comments and the white space around it, and without
braces and spaces in front. -/
def body (raw : Text) : Text :=
  (trim (dropComments (without '\t' raw))).dropWhile fun c => c ∈ ['{', '}', ' ']

def stripTerminators : Text := trim (without ';' t)

/-! ## Shapes -/

def compoundOperators : List Text :=
  ["+=", "-=", "*=", "/=", "%=", "&=", "|=", "^=", "<<=", ">>=", "++", "--"]

def controlMarks : List Text :=
  ["return ", "while ", "if ", "for ", "while(", "if(", "for(", "switch("]

def isCalleeChar (c : Char) : Bool := c.isAlphanum || c = '_' || c = ' '

/-- Whether the text is a call: a name and an opening parenthesis in front, and no control
statement anywhere. -/
def hasCall : Bool :=
  !controlMarks.any (contains · t) && ((trimStart t).dropWhile isCalleeChar).head? == some '('

def isCompound : Bool := compoundOperators.any (contains · t)

/-- Whether the text holds an assignment sign that is no part of a comparison. -/
def assigns : Bool :=
  let withoutComparisons :=
    (["==", "!=", ">=", "<="] : List Text).foldl (fun t op => replace op [] t) t
  '=' ∈ withoutComparisons

def unwrap : Text :=
  match t with
  | '(' :: inner => (dropTail? [')'] inner).getD t
  | _ => t

/-- The text behind a keyword in front of `t`, without opening braces. -/
def headerAfter (keyword t : Text) : Text := trim (without '{' ((dropHead? keyword t).getD t))

/-- The header of a counting loop: three parts, of which the last may hold semicolons. -/
def parseFor : Statement :=
  let header := headerAfter "for" t
  let inner := (dropHead? "(" header).getD header
  let inner := (cutLast? ')' inner).elim inner Prod.fst
  match cut? ';' inner with
  | none => fors (trim inner) [] []
  | some (init, rest) =>
    match cut? ';' rest with
    | none => fors (trim init) (trim rest) []
    | some (condition, increment) => fors (trim init) (trim condition) (trim increment)

def ofBody : Statement :=
  if t = "return" || startsWith "return;" t || Inserted.startsWithKeyword "return" t then
    returns (stripTerminators t)
  else if Inserted.startsWithKeyword "if" t then ifs t
  else if Inserted.startsWithKeyword "while" t then whiles (trim (unwrap (headerAfter "while" t)))
  else if Inserted.startsWithKeyword "for" t then parseFor t
  else if isCompound t || assigns t then assignment (stripTerminators t) (isCompound t)
  else if hasCall t then call (stripTerminators t)
  else other t

def isVoid : Bool := t.all fun c => c ∈ [';', '{', '}', ' ']

/-- The statement of an inserted line; none for a line without one, or with a `//prophet` mark. -/
def parse? (raw : Text) : Option Statement :=
  if contains "//prophet" raw then none
  else if isVoid (body raw) then none
  else some (ofBody (body raw))

end Statement

end PatchTriage
