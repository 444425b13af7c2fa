import DetectionRules.Advisor.Basic

/-!
An advisor that answers from a script and keeps the questions. The questions on
one field get the replies for that field one after the other, the last of them
again and again; fields without replies of their own share those for `*`.
-/

namespace DetectionRules

structure ScriptedReply where
  /-- How long the answer takes, in milliseconds. -/
  delay : Nat
  answer : Except AdvisorError FieldSuggestion

abbrev AdvisorScript : Type := List (String × List ScriptedReply)

namespace AdvisorScript

def replies (script : AdvisorScript) (field : String) : List ScriptedReply :=
  (((script.find? (·.1 == field)).or (script.find? (·.1 == "*"))).map (·.2)).getD []

/-- The reply to a question on a field, of which some were asked before. -/
def reply (script : AdvisorScript) (field : String) (before : Nat) : ScriptedReply :=
  let replies := script.replies field
  (replies[before]?.or replies.getLast?).getD
    ⟨0, .error (.invalidResponse "no scripted reply")⟩

/-- The advisor, whose notes are the questions asked so far. -/
def advisor (script : AdvisorScript) : Advisor (List FieldQuestion) := fun question => do
  let before ← Activity.access fun _ asked =>
    ((asked.filter (·.field == question.field)).length, asked ++ [question])
  let reply := script.reply question.field before
  Activity.pause reply.delay
  return reply.answer

end AdvisorScript

end DetectionRules
