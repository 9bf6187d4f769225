import SwapCalldata.InputError

/-!
Pool families and layout revisions. A family is a class of pools that share one instruction layout;
its tag is part of the published layout. A revision is a version of the instruction layouts.
-/
namespace SwapCalldata

inductive PoolFamily where
  | constantProduct
  | concentratedLiquidity
  | stable
  | bridge
deriving DecidableEq

namespace PoolFamily

/-- Every family, in the order of the tags. -/
def all : List PoolFamily := [constantProduct, concentratedLiquidity, stable, bridge]

def tag : PoolFamily → UInt8
  | constantProduct => 0
  | concentratedLiquidity => 1
  | stable => 2
  | bridge => 3

def name : PoolFamily → String
  | constantProduct => "constant-product"
  | concentratedLiquidity => "concentrated-liquidity"
  | stable => "stable"
  | bridge => "bridge"

/-- The family with exactly this name. -/
def ofName? (name : String) : Option PoolFamily := all.find? fun family => family.name == name

/-- Reads the name of a family in any letter case, blank characters around it ignored. -/
def parse (text : String) : Except InputError PoolFamily :=
  let folded := String.ofList ((Text.trim text.toList).map Char.toLower)
  match ofName? folded with
  | some family => .ok family
  | none => .error (.unknownName .poolFamily text)

theorem mem_all (family : PoolFamily) : family ∈ all := by cases family <;> decide

@[simp] theorem ofName?_name (family : PoolFamily) : ofName? family.name = some family := by
  cases family <;> decide

theorem tag_inj {a b : PoolFamily} (h : a.tag = b.tag) : a = b := by
  cases a <;> cases b <;> first | rfl | exact absurd h (by decide)

end PoolFamily

inductive Revision where
  /-- the legacy layout -/
  | v1
  /-- the current layout -/
  | v2
deriving DecidableEq

namespace Revision

def all : List Revision := [v1, v2]

/-- The revision used when none is named. -/
def standard : Revision := v2

def name : Revision → String
  | v1 => "v1"
  | v2 => "v2"

/-- The revision with exactly this name. -/
def ofName? (name : String) : Option Revision := all.find? fun revision => revision.name == name

/-- Reads a revision by its name in any letter case or by its number, blank characters around it
ignored. -/
def parse (text : String) : Except InputError Revision :=
  match (Text.trim text.toList).map Char.toLower with
  | ['v', '1'] | ['1'] => .ok v1
  | ['v', '2'] | ['2'] => .ok v2
  | _ => .error (.unknownName .revision text)

@[simp] theorem ofName?_name (revision : Revision) : ofName? revision.name = some revision := by
  cases revision <;> decide

end Revision

end SwapCalldata
