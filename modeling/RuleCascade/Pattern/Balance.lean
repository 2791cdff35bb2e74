import RuleCascade.Pattern.Glob

/-! # Balanced patterns

    Before a pattern is expanded, every bracket must close and every brace must
    have its partner. Inside a class all characters are literal, and a closing
    bracket that is the first member of a class does not close it.

    A fault is reported with the offset of its character.
-/

namespace RuleCascade

/-- Why a pattern is refused. Offsets count characters. -/
inductive PatternError where
  | empty
  | unbalancedBrace (offset : Nat)
  | unbalancedBracket (offset : Nat)
  /-- The glob that an alternative of the pattern was anchored to does not compile. -/
  | invalid (fault : Glob.Fault) (alternative : String)
deriving DecidableEq, Repr

/-- The wording of the error. -/
def PatternError.message : PatternError → String
  | .empty => "pattern is empty"
  | .unbalancedBrace offset => s!"unbalanced brace at offset {offset}"
  | .unbalancedBracket offset => s!"unbalanced bracket at offset {offset}"
  | .invalid fault alternative => fault.message ++ " (in '" ++ alternative ++ "')"

namespace Pattern

/-! ## Section 1: Classes -/

/-- How many characters after the opening bracket cannot close the class: a negation mark
and a closing bracket that is the first member. -/
def classHead : List Char → Nat
  | '!' :: ']' :: _ => 2
  | '!' :: _ => 1
  | ']' :: _ => 1
  | _ => 0

/-- The text of a class whose opening bracket has been read, up to its closing bracket, and
the text after that bracket. -/
def classSplit? (cs : List Char) : Option (List Char × List Char) :=
  let tail := cs.drop (classHead cs)
  match tail.dropWhile (· ≠ ']') with
  | [] => none
  | _ :: after => some (cs.take (classHead cs) ++ tail.takeWhile (· ≠ ']'), after)

theorem eq_of_classSplit? {cs body after : List Char} (h : classSplit? cs = some (body, after)) :
    cs = body ++ ']' :: after := by
  simp only [classSplit?] at h
  split at h
  · simp at h
  · rename_i c rest heq
    simp only [Option.some.injEq, Prod.mk.injEq] at h
    have hc : c = ']' := by
      have hhead := List.head?_dropWhile_not (fun x => decide (x ≠ ']')) (cs.drop (classHead cs))
      rw [heq] at hhead
      simpa using hhead
    have hsplit := List.takeWhile_append_dropWhile (p := fun x => decide (x ≠ ']'))
      (l := cs.drop (classHead cs))
    rw [heq, hc] at hsplit
    rw [← h.1, ← h.2, List.append_assoc, hsplit, List.take_append_drop]

theorem length_of_classSplit? {cs body after : List Char}
    (h : classSplit? cs = some (body, after)) : after.length < cs.length := by
  rw [eq_of_classSplit? h]
  simp
  omega

/-! ## Section 2: The check -/

/-- Scan from an offset, with the offsets of the braces that are open, innermost first. -/
def balanceFrom (offset : Nat) (openBraces : List Nat) (cs : List Char) :
    Except PatternError Unit :=
  match cs with
  | [] =>
    match openBraces.getLast? with
    | none => .ok ()
    | some leftmost => .error (.unbalancedBrace leftmost)
  | '[' :: rest =>
    match _h : classSplit? rest with
    | none => .error (.unbalancedBracket offset)
    | some (body, after) => balanceFrom (offset + body.length + 2) openBraces after
  | '\x7b' :: rest => balanceFrom (offset + 1) (offset :: openBraces) rest
  | '\x7d' :: rest =>
    match openBraces with
    | [] => .error (.unbalancedBrace offset)
    | _ :: outer => balanceFrom (offset + 1) outer rest
  | _ :: rest => balanceFrom (offset + 1) openBraces rest
termination_by cs.length
decreasing_by
  · have := length_of_classSplit? _h
    simp
    omega
  all_goals simp

/-- Refuse unbalanced braces and brackets. -/
def checkBalance (cs : List Char) : Except PatternError Unit :=
  balanceFrom 0 [] cs

end Pattern

end RuleCascade
