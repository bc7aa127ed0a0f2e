import BranchingStory.Diagnostic
import BranchingStory.Source

/-! # What reading has found

The issues of a document as findings: those of the metadata fence first, then statement by statement,
those of a statement before those of its block. -/

namespace BranchingStory.Source
set_option autoImplicit false

/-- Tokens that do not fit, shown by what was written. -/
def unexpectedAt (s : Source) (span : Span) : Found :=
  ⟨.unexpected (s.excerpt span), s.range span⟩

def issueFound (s : Source) : Issue → Found
  | .missing segment offset => ⟨.missing segment, s.range ⟨offset, offset⟩⟩
  | .unexpected span => s.unexpectedAt span

/-- What a statement of one line is by itself. -/
def formFindings (s : Source) (span : Span) : Form → List Found
  | .erroneous => [s.unexpectedAt span]
  | .inconsistentIndentation => [⟨.inconsistentIndentation, s.range span⟩]
  | _ => []

mutual

def issuesOf (s : Source) : Statement → List Found
  | .line form span issues => s.formFindings span form ++ issues.map s.issueFound
  | .bare _ _ issues => issues.map s.issueFound
  | .block _ _ items _ issues => issues.map s.issueFound ++ s.issuesIn items

def issuesIn (s : Source) : List Statement → List Found
  | [] => []
  | item :: rest => s.issuesOf item ++ s.issuesIn rest

end

def syntaxFindings (s : Source) (d : Document) : List Found :=
  (match d.metadata with
    | some fence => fence.issues.map s.issueFound
    | none => []) ++ s.issuesIn d.statements

end BranchingStory.Source
