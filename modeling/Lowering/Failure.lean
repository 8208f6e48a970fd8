import Lowering.Host.HostType
import Lowering.Tree.Span

/-! # Failures

Why a tree cannot be typed or lowered, and the message for each cause. Every failure except an
internal one has a location. -/

namespace Lowering

/-- What was looked for without success. -/
inductive Sought where
  | localVariable
  | enclosingInstance
  | enclosingSupertype
  | value
  | assignmentTarget
  | described (text : String)
deriving DecidableEq, Repr

/-- A construct that stands where it cannot yield what is asked of it. -/
inductive Misuse where
  | noValue (kind : String)
  | notBlock (kind : String)
  | operandCount (operator : String) (count : Nat)
  | notAssignable (feature : String)
  | described (text : String)
deriving DecidableEq, Repr

/-- A broken rule of the typing states or of the output. -/
inductive Fault where
  | rootExists
  | unknownState (state : Nat)
  | discardedState (state : Nat)
  | busyState (state child : Nat)
  | activeState (state : Nat)
  | noResultLocal (kind : String) (span : Span)
  | described (text : String)
deriving DecidableEq, Repr

inductive Failure where
  /-- Two types for one node where an exact one was asked for. -/
  | conflict (first second : HostType) (span : Span)
  | mismatch (expected actual : HostType) (span : Span)
  | unsupported (kind : String) (span : Span)
  | unresolved (sought : Sought) (name : String) (span : Span)
  | misuse (cause : Misuse) (span : Span)
  | internal (fault : Fault)
deriving DecidableEq, Repr

def Sought.text : Sought → String
  | .localVariable => "local variable"
  | .enclosingInstance => "enclosing instance"
  | .enclosingSupertype => "enclosing supertype"
  | .value => "value"
  | .assignmentTarget => "assignment target"
  | .described text => text

def Misuse.text : Misuse → String
  | .noValue kind => kind ++ " cannot be used as a value here"
  | .notBlock kind => "expected a block expression, found " ++ kind
  | .operandCount operator count =>
    "operator '" ++ operator ++ "' applied to " ++ toString count ++ " operands"
  | .notAssignable feature => "cannot assign to '" ++ feature ++ "'"
  | .described text => text

def Fault.text : Fault → String
  | .rootExists => "root state already exists"
  | .unknownState state => "unknown state " ++ toString state
  | .discardedState state => "state " ++ toString state ++ " was already discarded"
  | .busyState state child =>
    "state " ++ toString state ++ " still has active child " ++ toString child ++
      " while starting another"
  | .activeState state => "state " ++ toString state ++ " is still active"
  | .noResultLocal kind span =>
    "no local was declared for the " ++ kind ++ " at " ++ span.display
  | .described text => text

namespace Failure

def span : Failure → Span
  | .conflict _ _ span | .mismatch _ _ span | .unsupported _ span | .unresolved _ _ span
  | .misuse _ span => span
  | .internal _ => {}

def message : Failure → String
  | .conflict first second span =>
    "at " ++ span.display ++ ": conflicting types for expression: '" ++ first.display ++
      "' and '" ++ second.display ++ "'"
  | .mismatch expected actual span =>
    "at " ++ span.display ++ ": expected '" ++ expected.display ++ "', got '" ++
      actual.display ++ "'"
  | .unsupported kind span =>
    "at " ++ span.display ++
      ": couldn't find a compilation strategy for expressions of type " ++ kind
  | .unresolved sought name span =>
    "at " ++ span.display ++ ": unresolved " ++ sought.text ++ " '" ++ name ++ "'"
  | .misuse cause span => "at " ++ span.display ++ ": " ++ cause.text
  | .internal fault => "internal error: " ++ fault.text

def isConflict : Failure → Bool
  | .conflict .. => true
  | _ => false

end Failure

end Lowering
