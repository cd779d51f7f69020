import SpannedParsing.Parser.Basic

/-!
# Parsers one after the other

All of them run the second parser where the first one ended, and differ only in
the value they build.
-/
namespace SpannedParsing.Parser

variable {ι α β γ ε : Type}

def pair (p : Parser ι α ε) (q : Parser ι β ε) : Parser ι (α × β) ε :=
  p.andThen fun a => q.map fun b => (a, b)

def keepRight (p : Parser ι α ε) (q : Parser ι β ε) : Parser ι β ε :=
  p.andThen fun _ => q

def keepLeft (p : Parser ι α ε) (q : Parser ι β ε) : Parser ι α ε :=
  p.andThen fun a => q.map fun _ => a

/-- The first value in front of the list that follows. -/
def cons (p : Parser ι α ε) (q : Parser ι (List α) ε) : Parser ι (List α) ε :=
  p.andThen fun a => q.map fun as => a :: as

/-- What stands between an opening and a closing parser. -/
def delimited (p : Parser ι α ε) (opening : Parser ι β ε) (closing : Parser ι γ ε) :
    Parser ι α ε :=
  (opening.keepRight p).keepLeft closing

/-- A value, and what a parser chosen by that value and the cursor after it finds. -/
def withContext (p : Parser ι α ε) (next : α → Cursor ι → Parser ι β ε) : Parser ι (α × β) ε :=
  p.andThen fun a rest => (next a rest).map (fun b => (a, b)) rest

theorem map_withContext (f : α × β → γ) (p : Parser ι α ε) (next : α → Cursor ι → Parser ι β ε) :
    (p.withContext next).map f =
      p.andThen fun a rest => (next a rest).map (fun b => f (a, b)) rest := by
  rw [withContext, map_andThen]
  refine congrArg p.andThen (funext fun a => funext fun rest => ?_)
  exact congrFun (map_map (fun b => (a, b)) f (next a rest)) rest

end SpannedParsing.Parser
