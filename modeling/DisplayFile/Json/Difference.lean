import DisplayFile.Json.Basic

/-!
# Comparing JSON values

Two values agree when they have the same shape and the same leaves, numbers being compared by value
and objects without regard to the order of their members. Where they do not agree, the comparison
says where: each difference is a place, given by the keys and indexes that lead to it, and a kind.

Arrays of different lengths, values of different kinds and different leaves differ as a whole.
Objects are gone into: a key that only one of them has is a difference of its own.

The search stops early. A part is not gone into once there are as many differences as are reported
(`reportLimit`). Keys missing from an object that is gone into are all listed, however, so a report
can be longer than that.
-/

namespace DisplayFile.Json

mutual

/-- Whether two values are the same, up to the way numbers are written. -/
def agrees : Json → Json → Bool
  | .null, .null => true
  | .bool a, .bool b => a = b
  | .number a, .number b => a.same b
  | .string a, .string b => a = b
  | .array as, .array bs => itemsAgree as bs
  | .object as, .object bs => as.length = bs.length && membersAgree as bs
  | _, _ => false

/-- Whether two lists of items agree item by item. -/
def itemsAgree : List Json → List Json → Bool
  | [], [] => true
  | a :: as, b :: bs => agrees a b && itemsAgree as bs
  | _, _ => false

/-- Whether every member of the first object agrees with one of the second. -/
def membersAgree : List (String × Json) → List (String × Json) → Bool
  | [], _ => true
  | (key, a) :: as, bs =>
    (match find? key bs with
      | some b => agrees a b
      | none => false) && membersAgree as bs

end

/-- A step into a value. -/
inductive Step where
  | key (name : String)
  | index (i : Nat)
deriving DecidableEq, Repr

/-- What is the matter at a place. -/
inductive DifferenceKind where
  /-- Both values are there and do not agree. -/
  | different
  /-- The value that is expected is not there. -/
  | missing
  /-- A value is there that is not expected. -/
  | unexpected
deriving DecidableEq, Repr

/-- A place where two values do not agree. -/
structure Difference where
  /-- The steps that lead to the place. -/
  path : List Step
  kind : DifferenceKind
deriving DecidableEq, Repr

/-- No part of a value is gone into once this many differences are found. -/
def reportLimit : Nat := 5

mutual

/-- Add the differences of two values at a place to those found before. -/
def collect (path : List Step) (found : Array Difference) : Json → Json → Array Difference
  | expected, got =>
    if reportLimit ≤ found.size || agrees expected got then found
    else
      match expected, got with
      | .object es, .object gs =>
        let found := collectMembers path gs found es
        (gs.filter fun m ↦ (find? m.1 es).isNone).foldl
          (fun found m ↦ found.push ⟨path ++ [.key m.1], .unexpected⟩) found
      | .array es, .array gs =>
        if es.length = gs.length then collectItems path 0 found es gs
        else found.push ⟨path, .different⟩
      | _, _ => found.push ⟨path, .different⟩

/-- Add the differences at the keys of the expected members. -/
def collectMembers (path : List Step) (got : List (String × Json)) (found : Array Difference) :
    List (String × Json) → Array Difference
  | [] => found
  | (key, expected) :: rest =>
    let found :=
      match find? key got with
      | some g => collect (path ++ [.key key]) found expected g
      | none => found.push ⟨path ++ [.key key], .missing⟩
    collectMembers path got found rest

/-- Add the differences of two lists of items, of which the first have index `i`. -/
def collectItems (path : List Step) (i : Nat) (found : Array Difference) :
    List Json → List Json → Array Difference
  | expected :: es, got :: gs =>
    collectItems path (i + 1) (collect (path ++ [.index i]) found expected got) es gs
  | _, _ => found

end

/-- The differences between a value that is expected and the one that is there. -/
def differences (expected got : Json) : List Difference :=
  (collect [] #[] expected got).toList

/-- A step as it is shown. -/
def Step.text : Step → String
  | key name => "." ++ name
  | index i => "[" ++ toString i ++ "]"

/-- A difference as it is shown. -/
def Difference.text (d : Difference) : String :=
  "$" ++ String.join (d.path.map Step.text) ++
    match d.kind with
    | .different => ""
    | .missing => " (missing)"
    | .unexpected => " (unexpected)"

end DisplayFile.Json
