import PatchTriage.Text.Utf8

/-!
# Commands of the shell

Commands as they are kept once they have been read.
-/

namespace PatchTriage.Shell

inductive Default where
  | use | useIfSet | complain | assign

inductive RedirectKind where
  | input
  | output
  | overwrite
  | append
  | inputOutput
  | duplicateInput
  | duplicateOutput
  | document (number : Nat)
  deriving DecidableEq

mutual

inductive Part where
  | char (c : Char)
  | quoted (c : Char)
  | mark
  | param (name : Raw) (op : ParamOp)
  | command (c : Option Command)
  | arith (expression : List Part)

inductive ParamOp where
  | value
  | length
  | senseless
  | default (d : Default) (orEmpty : Bool) (word : List Part)
  | trim (atEnd longest : Bool) (pattern : List Part)

inductive Redirect where
  | mk (fd : Nat) (kind : RedirectKind) (target : List Part)

inductive Command where
  | simple (line : Nat) (assigns words : List (List Part)) (redirects : List Redirect)
  | redirected (line : Nat) (c : Command) (redirects : List Redirect)
  | pipeline (background : Bool) (commands : List Command)
  | subshell (line : Nat) (c : Command) (redirects : List Redirect)
  | background (line : Nat) (c : Command) (redirects : List Redirect)
  | negate (c : Command)
  | both (left right : Command)
  | either (left right : Command)
  | seq (left right : Command)
  | ifThen (condition body : Command) (otherwise : Option Command)
  | loop (inverted : Bool) (condition body : Command)
  | forEach (line : Nat) (var : Raw) (words : List (List Part)) (body : Command)
  | caseOf (line : Nat) (subject : List Part) (arms : List (List (List Part) × Option Command))
  | define (line : Nat) (name : Raw) (body : Command)

end

instance : Inhabited Command := ⟨.simple 1 [] [] []⟩

abbrev Word := List Part

namespace Word

def plainHead : Word → Raw
  | .char c :: w => c :: plainHead w
  | _ => []

def plain? : Word → Option Raw
  | [] => some []
  | .char c :: w => (plain? w).map (c :: ·)
  | _ => none

def literal : Word → Raw
  | [] => []
  | .char c :: w | .quoted c :: w => c :: literal w
  | _ :: w => literal w

end Word

/-! ## Names -/

def isNameStart (c : Char) : Bool := c.isAlpha || c = '_'

def isNameChar (c : Char) : Bool := c.isAlphanum || c = '_'

def nameHead (t : Raw) : Raw :=
  match t with
  | c :: _ => if isNameStart c then t.takeWhile isNameChar else []
  | [] => []

def isName (t : Raw) : Bool := !t.isEmpty && nameHead t = t

def Word.isAssignment (w : Word) : Bool :=
  let text := w.plainHead
  let name := nameHead text
  !name.isEmpty && (text.drop name.length).head? == some '='

end PatchTriage.Shell
