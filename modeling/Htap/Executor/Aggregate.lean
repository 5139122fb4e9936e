import Htap.Basis.Rounding
import Htap.Executor.Expression

/-!
Aggregate states: what one value does to them and what they end as.
-/

namespace Htap.Executor

open Storage Htap.Parser

/-- `GlobalAggregateState`. Overflow of the signed members is undefined in the
source and wraps here. -/
structure GlobalAggregateState where
  count : Int64 := 0
  intSum : Int64 := 0
  intMin : Int64 := Int64.maxValue
  intMax : Int64 := Int64.minValue
  doubleSum : Binary64 := Binary64.zero
  doubleMin : Binary64 := Binary64.greatest
  doubleMax : Binary64 := Binary64.lowest
  deriving DecidableEq

/-- `std::get<std::int64_t>`. -/
def getInt64 : ResultValue → Result Int64
  | .int64 v => .ok v
  | _ => .error .badVariantAccess

/-- `std::get<double>`. -/
def getDouble : ResultValue → Result Binary64
  | .double v => .ok v
  | _ => .error .badVariantAccess

def unsupported (what : String) : Exception := .runtimeError what

/-- `UpdateGlobalAggregateState` on a value that is not NULL. -/
def updateNonNull (kind : AggregateKind) (resultType : ExpressionType) (value : ResultValue)
    (state : GlobalAggregateState) : Result GlobalAggregateState :=
  let state := { state with count := state.count + 1 }
  match kind with
  | .count => .ok state
  | .avg =>
    match value with
    | .double v => .ok { state with doubleSum := Binary64.add state.doubleSum v }
    | .int64 v =>
      .ok { state with doubleSum := Binary64.add state.doubleSum (Binary64.ofInt64 v) }
    | _ => .error (unsupported "AVG expects numeric value")
  | .sum =>
    match resultType with
    | .int64 => do
      let v ← getInt64 value
      return { state with intSum := state.intSum + v }
    | .double => do
      let v ← getDouble value
      return { state with doubleSum := Binary64.add state.doubleSum v }
    | _ => .error (unsupported "Unsupported SUM result type")
  | .min =>
    match resultType with
    | .int64 => do
      let current ← getInt64 value
      return if current < state.intMin then { state with intMin := current } else state
    | .double => do
      let current ← getDouble value
      return if Binary64.lt current state.doubleMin then { state with doubleMin := current }
        else state
    | _ => .error (unsupported "Unsupported MIN result type")
  | .max =>
    match resultType with
    | .int64 => do
      let current ← getInt64 value
      return if state.intMax < current then { state with intMax := current } else state
    | .double => do
      let current ← getDouble value
      return if Binary64.lt state.doubleMax current then { state with doubleMax := current }
        else state
    | _ => .error (unsupported "Unsupported MAX result type")

/-- `UpdateGlobalAggregateState`. -/
def updateGlobalAggregateState (kind : AggregateKind) (resultType : ExpressionType) :
    NullableResultValue → GlobalAggregateState → Result GlobalAggregateState
  | none, state => .ok state
  | some value, state => updateNonNull kind resultType value state

/-- `FinalizeAggregateState`. -/
def finalizeAggregateState (kind : AggregateKind) (resultType : ExpressionType)
    (state : GlobalAggregateState) : Result NullableResultValue :=
  match kind with
  | .count => .ok (some (.int64 state.count))
  | .avg =>
    if state.count = 0 then .ok none
    else
      match resultType with
      | .double =>
        .ok (some (.double (Binary64.div state.doubleSum (Binary64.ofInt64 state.count))))
      | _ => .error (unsupported "Unsupported AVG result type")
  | .sum =>
    if state.count = 0 then .ok none
    else
      match resultType with
      | .int64 => .ok (some (.int64 state.intSum))
      | .double => .ok (some (.double state.doubleSum))
      | _ => .error (unsupported "Unsupported SUM result type")
  | .min =>
    if state.count = 0 then .ok none
    else
      match resultType with
      | .int64 => .ok (some (.int64 state.intMin))
      | .double => .ok (some (.double state.doubleMin))
      | _ => .error (unsupported "Unsupported MIN result type")
  | .max =>
    if state.count = 0 then .ok none
    else
      match resultType with
      | .int64 => .ok (some (.int64 state.intMax))
      | .double => .ok (some (.double state.doubleMax))
      | _ => .error (unsupported "Unsupported MAX result type")

end Htap.Executor
