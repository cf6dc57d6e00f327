import SmtDialogue.Expr.Error

/-!
# Rendering

An expression is rendered as an outline, one line per node: the name, the
stored value if there is one, and the children below it, one step further in.
An outline with a value that is too long to be written is refused.
-/

namespace SmtDialogue

namespace Expr

/-- The line of a node at a depth; a negative depth is not indented. -/
def line (l : Label) (depth : Int) : String :=
  String.join (List.replicate depth.toNat " | ") ++ l.name ++
    match l.value with
    | none => ""
    | some v => " = " ++ v.text

mutual

/-- The outline of an expression, its root at the given depth. -/
def render : Expr → Int → List String
  | node l cs, depth => line l depth :: renderAll cs (depth + 1)

/-- The outlines of several expressions, one below the other. -/
def renderAll : List Expr → Int → List String
  | [], _ => []
  | e :: es, depth => e.render depth ++ renderAll es depth

end

/-- Whether every stored value is short enough to be written. -/
def isRenderable (e : Expr) : Bool :=
  e.nodes.all fun n => n.value.all Value.isWritable

/-- The outline of an expression whose values can be written. -/
def outline (e : Expr) (depth : Int) : Except BuildError (List String) :=
  if e.isRenderable then .ok (e.render depth) else .error .valueTooLong

/-- The whole outline as text, each line ended by a line feed. -/
def text (e : Expr) : String :=
  String.join ((e.render 0).map (· ++ "\n"))

/-- The outline has one line per node. -/
theorem length_render (e : Expr) : ∀ depth, (e.render depth).length = e.size := by
  have all : ∀ cs : List Expr, (∀ c ∈ cs, ∀ d, (c.render d).length = c.size) →
      ∀ d, (renderAll cs d).length = (cs.flatMap nodes).length := by
    intro cs
    induction cs with
    | nil => intro _ _; rfl
    | cons c cs ih =>
      intro h d
      simp only [renderAll, List.length_append, List.flatMap_cons]
      rw [h c (by simp) d, ih (fun x hx => h x (by simp [hx])) d]
      rfl
  induction e using induct with
  | node l cs ih =>
    intro d
    simp [render, size, nodes_node, all cs ih]

end Expr

namespace Operand

/-- An operand as running text: a text stands as it is, an expression as its
outline, anything else as in a message. -/
def plain : Operand → String
  | text s => s
  | expr e => e.text
  | other => other.display

@[simp] theorem plain_text (s : String) : (text s).plain = s := rfl

/-- Whether the operand can be written as running text: every value stored in an
expression is short enough for that, and so is every integer of any other
operand. -/
def isRenderable : Operand → Bool
  | expr e => e.isRenderable
  | other => other.isDisplayable

/-- The running text of an operand that can be written. -/
def runningText (o : Operand) : Except BuildError String :=
  if o.isRenderable then .ok o.plain else .error .valueTooLong

end Operand

end SmtDialogue
