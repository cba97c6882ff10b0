import ScriptStore.Types.ClassInfo
import ScriptStore.Types.Hierarchy

/-!
# The order of class infos

Infos are tried in an order in which every one comes after those it waits for: the ones it names as
earlier, the ones that name it as later, and those of its subtypes. At each place stands the
earliest registered info that waits for none of the infos still to be placed.
-/

namespace ScriptStore.Types

/-- Whether `a` has to come after `b`. -/
def ClassInfo.waitsFor (h : Hierarchy) (a b : ClassInfo) : Bool :=
  a.code != b.code &&
    (a.after.contains b.code || b.before.contains a.code || h.assignable a.kind b.kind)

namespace ClassOrder

/-- The infos among `rest` for which `info` waits. -/
def awaited (h : Hierarchy) (rest : List ClassInfo) (info : ClassInfo) : List ClassInfo :=
  rest.filter (info.waitsFor h)

/-- Places infos one by one while one is ready; gives the placed ones and those left. -/
def place (h : Hierarchy) : (fuel : Nat) → List ClassInfo → List ClassInfo × List ClassInfo
  | 0, rest => ([], rest)
  | fuel + 1, rest =>
    match rest.find? fun info => (awaited h rest info).isEmpty with
    | none => ([], rest)
    | some info =>
      let (placed, left) := place h fuel (rest.filter fun other => other.code != info.code)
      (info :: placed, left)

/-- Orders infos given in the order of their registration. -/
def sort (h : Hierarchy) (infos : List ClassInfo) : Except Error (List ClassInfo) :=
  match place h infos.length infos with
  | (placed, []) => .ok placed
  | (_, left) =>
    .error (.circularOrder (left.map fun info =>
      (info.code, ((awaited h left info).map (·.code)).mergeSort (· ≤ ·))))

end ClassOrder

end ScriptStore.Types
