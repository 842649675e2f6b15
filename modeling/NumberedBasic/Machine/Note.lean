import NumberedBasic.Machine.Loop

/-!
# Debugging notes

What a run tells when debugging messages are wanted.
-/

namespace NumberedBasic

inductive Note where
  | organised (statements values : Nat)
  | jumped (source target : Int)
  | opened (loop : Loop)
  | closed (loop : Loop)
  | redimensioned (array : String)
  | droppedWrite (array : String) (index bounds : List Int)
  | stopped (index : Int) (diagnostic : Diagnostic)
  deriving DecidableEq

def Diagnostic.debugText (diagnostic : Diagnostic) : String :=
  let line :=
    match diagnostic.line with
    | some line => toString line
    | none => "None"
  "RunError(" ++ Text.quoted diagnostic.message ++ ", line=" ++ line ++ ")"

def Note.text : Note → String
  | organised statements values =>
      "Organised program: " ++ toString statements ++ " statements, " ++
        toString values ++ " DATA values"
  | jumped source target =>
      "Jump from " ++ toString source ++ " to " ++ toString target
  | opened loop => "Opened loop " ++ loop.debugText
  | closed loop => "Closed loop " ++ loop.debugText
  | redimensioned array => "Redimensioning array " ++ array
  | droppedWrite array index bounds =>
      "Dropped write to " ++ array ++ Arrays.listText (index.map toString) ++
        " outside " ++ Arrays.listText (bounds.map toString)
  | stopped index diagnostic =>
      "Run stopped at statement " ++ toString index ++ ": " ++
        diagnostic.debugText

end NumberedBasic
