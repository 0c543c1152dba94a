import ScopeScript.Vault.Handle

/-!
# Frames

The active scopes form a stack of frames. A frame names the record of its scope and says how the
scope was entered, which decides how it has to be left. Stacks are lists with the innermost frame
first; what has no sensible result on an empty stack is a crash.
-/

namespace ScopeScript

/-- How a scope was entered. -/
inductive FrameKind
  | block
  | named
  | boxed
  | unknown
  deriving DecidableEq, Repr, Inhabited

namespace FrameKind

/-- The name of a kind of frame. -/
def text : FrameKind → String
  | block => "block"
  | named => "named"
  | boxed => "boxed"
  | unknown => "?"

end FrameKind

/-- An active scope. -/
structure Frame where
  kind : FrameKind
  record : Handle
  deriving DecidableEq, Repr, Inhabited

namespace Frame

/-- Written form of a frame. -/
def text (frame : Frame) : String :=
  "<mem " ++ frame.kind.text ++ " -> " ++ frame.record.text ++ ">"

end Frame

/-- A breach of the rules by which scopes are entered and left, or a binding without a name. -/
inductive Crash
  | popFromEmpty
  | noCurrentFrame
  | noGlobalFrame
  | wrongExit (found wanted : FrameKind)
  | wrongDeclaration (declared : Handle) (top : Frame)
  | inactiveRecord (reason : String)
  | namelessBinding
  deriving DecidableEq, Repr, Inhabited

namespace Crash

/-- Wording of a crash. -/
def message : Crash → String
  | popFromEmpty => "attempt to pop memory frame from empty call stack"
  | noCurrentFrame => "attempt to access memory frame from empty stack"
  | noGlobalFrame => "attempt to access global memory frame from empty stack"
  | wrongExit found wanted =>
      "attempt to exit " ++ found.text ++ " frame as " ++ wanted.text
  | wrongDeclaration declared top =>
      "attempt to end declaration of " ++ declared.text ++ ", TOS is " ++ top.text
  | inactiveRecord reason => "active scope is not live: " ++ reason
  | namelessBinding => "runtime error: invalid memory address or nil pointer dereference"

end Crash

/-- The active scopes, innermost first. -/
abbrev FrameStack := List Frame

namespace FrameStack

/-- The innermost frame. -/
def current (stack : FrameStack) : Except Crash Frame :=
  match stack with
  | frame :: _ => .ok frame
  | [] => .error .noCurrentFrame

/-- The outermost frame. -/
def globals (stack : FrameStack) : Except Crash Frame :=
  match stack.getLast? with
  | some frame => .ok frame
  | none => .error .noGlobalFrame

/-- The innermost frame and the stack below it. -/
def pop (stack : FrameStack) : Except Crash (Frame × FrameStack) :=
  match stack with
  | frame :: rest => .ok (frame, rest)
  | [] => .error .popFromEmpty

/-- The innermost frame of a kind. -/
def findKind? (stack : FrameStack) (kind : FrameKind) : Option Frame :=
  stack.find? (·.kind == kind)

end FrameStack

end ScopeScript
