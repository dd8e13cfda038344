import Clausal.Document
import Clausal.Relocation

namespace Clausal

mutual
/-- What is told about a failure, as plain text and lists. -/
inductive Diagnostic where
  | mk (kind goal message : String) (chain candidates : List String)
      (attempts : List AttemptReport)

/-- What is told about a candidate rule, with its cause where one is shown. -/
inductive AttemptReport where
  | plain (rule reason : String)
  | caused (rule reason : String) (cause : Diagnostic)
end

/-- The report of an attempt of which the causes are reported by `report`, if at all. -/
def Attempt.report (report : Option (Failure → Diagnostic)) : Attempt → AttemptReport
  | .subgoal rule requirement goal cause =>
    let reason := s!"requirement {requirement} (`{goal.text}`) failed"
    match report with
    | some report => .caused rule reason (report cause)
    | none => .plain rule reason
  | a => .plain a.rule a.message

/-- The report of a failure with `depth` levels of causes. -/
def Failure.reportTo (depth : Nat) (f : Failure) : Diagnostic :=
  .mk f.kind f.goal.text f.message (f.chain?.elim [] fun chain => chain.map Term.text)
    f.candidates
    (f.attempts.map (Attempt.report
      (match depth with
        | 0 => none
        | depth + 1 => some fun cause => cause.reportTo depth)))

def Failure.report (f : Failure) : Diagnostic :=
  f.reportTo causeDepth

/-- A line that starts with two blanks per level. -/
def indented (level : Nat) (line : String) : String :=
  "".pushn ' ' (2 * level) ++ line ++ "\n"

mutual
/-- The trace of a diagnostic, one line for each fact and deeper causes further in. -/
def Diagnostic.renderAt (level : Nat) : Diagnostic → String
  | .mk kind _ message chain candidates attempts =>
    indented level (s!"error[{kind}]: {message}")
      ++ (if chain.isEmpty then ""
        else indented level ("  while resolving: " ++ " -> ".intercalate chain))
      ++ String.join (candidates.map fun c => indented level ("  candidate: " ++ c))
      ++ Diagnostic.renderAttempts level attempts

def Diagnostic.renderAttempts (level : Nat) : List AttemptReport → String
  | [] => ""
  | a :: rest => a.renderAt level ++ Diagnostic.renderAttempts level rest

def AttemptReport.renderAt (level : Nat) : AttemptReport → String
  | .plain rule reason => indented level ("  tried " ++ rule ++ ": " ++ reason)
  | .caused rule reason cause =>
    indented level ("  tried " ++ rule ++ ": " ++ reason) ++ cause.renderAt (level + 2)
end

def Diagnostic.render (d : Diagnostic) : String :=
  d.renderAt 0

mutual
def Diagnostic.toDocument : Diagnostic → Document
  | .mk kind goal message chain candidates attempts =>
    .record [
      ("kind", .text kind),
      ("goal", .text goal),
      ("message", .text message),
      ("chain", .list (chain.map .text)),
      ("candidates", .list (candidates.map .text)),
      ("attempts", .list (Diagnostic.attemptDocuments attempts))]

def Diagnostic.attemptDocuments : List AttemptReport → List Document
  | [] => []
  | a :: rest => a.toDocument :: Diagnostic.attemptDocuments rest

def AttemptReport.toDocument : AttemptReport → Document
  | .plain rule reason => .record [("rule", .text rule), ("reason", .text reason)]
  | .caused rule reason cause =>
    .record [("rule", .text rule), ("reason", .text reason), ("cause", cause.toDocument)]
end

end Clausal
