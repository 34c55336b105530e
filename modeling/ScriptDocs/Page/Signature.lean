import ScriptDocs.Flag.Typed
import ScriptDocs.Flag.Visibility
import ScriptDocs.Symbol.Basic

/-!
# Signatures

The parameters and the return value of a function, as the flags of its comment give them, and the
two ways in which a signature is printed: in one line for summaries, and in full for descriptions.
-/

namespace ScriptDocs.Page

/-! ## Flags of a signature -/

def parameterFlags (flags : List Flag) : List Flag := flags.filter (·.isNamed "@param")

/-- The flag that describes the return value, if there is one; there must not be several. -/
def returnFlag? (flags : List Flag) : Except Fault (Option Flag) :=
  match flags.filter (·.isNamed "@return") with
  | [] => .ok none
  | [f] => .ok (some f)
  | _ => .error .severalReturns

def parameterOf (f : Flag) : Except Fault Parameter :=
  if f.isNamed "@param" then Parameter.read f.text else .error .notParameter

def returnedOf (f : Flag) : Except Fault Returned :=
  if f.isNamed "@return" then Returned.read f.text else .error .notReturn

/-! ## Signatures -/

structure Signature where
  parameters : List Parameter
  returned? : Option Returned
deriving DecidableEq, Repr

def Signature.ofFlags (flags : List Flag) : Except Fault Signature := do
  let parameters ← (parameterFlags flags).mapM parameterOf
  match ← returnFlag? flags with
  | none => return ⟨parameters, none⟩
  | some f => return ⟨parameters, some (← returnedOf f)⟩

def Signature.inline (s : Signature) : Text :=
  '(' :: List.intercalate ", ".toList (s.parameters.map Parameter.signature) ++ [')']

/-- The parameters on lines of their own, each but the last with a comma behind it. -/
def Signature.lines (s : Signature) : Text :=
  if s.parameters.isEmpty then []
  else
    let shown := s.parameters.map fun p => "\n  ".toList ++ p.signature
    List.intercalate [','] shown ++ ['\n']

/-- The whole signature of a function: who may call it, its name, the parameters, and the type of
what it returns. -/
def Signature.full (s : Signature) (visibility : Visibility) (identifier : Text) : Text :=
  visibility.word ++ ' ' :: identifier ++ '(' :: s.lines ++ [')'] ++
    match s.returned? with
    | none => []
    | some r => " : ".toList ++ r.signature

end ScriptDocs.Page
