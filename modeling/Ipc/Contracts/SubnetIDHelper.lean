/-
**Subnet ids and the direction of a message (`SubnetIDHelper`, `CrossMsgHelper.applyType`).**

A subnet id is a root chain id and the route of subnet actors below it. Comparisons go through
`keccak256(abi.encode(..))` in the source (`equals`, the `subnets` mapping); the model compares ids
themselves, that is, it takes the hash to be collision-free.

A message is applied bottom-up where it arrives when the arriving subnet and the message's source
share their common parent with the destination and the source lies below that parent; otherwise
it travels top-down (`applyType`). `commonParent` finds the longest common prefix of two routes
(`commonRoute_prefix_left`, `prefix_commonRoute`), whichever comes first; so along a message's
route `applyType` turns from bottom-up to top-down exactly at the common parent of source and
destination (`applyType_on_route`).
-/

import Ipc.Contracts.Basic

namespace Ipc.Contracts

namespace SubnetID

/-- The empty id, `SubnetID(0, [])`. -/
def empty : SubnetID := ⟨0, []⟩

/-- `isEmpty`. -/
def isEmpty (subnet : SubnetID) : Bool := subnet.route.isEmpty && subnet.root == 0

/-- `equals`, with the hash comparison taken collision-free. -/
def equals (subnet1 subnet2 : SubnetID) : Bool := subnet1 == subnet2

/-- `getActor`: the last actor of the route, `address(0)` for a root. -/
def getActor (subnet : SubnetID) : Address := subnet.route.getLast?.getD 0

/-- `getParentSubnet`: the route without its last actor; a root has no parent. -/
def getParentSubnet (subnet : SubnetID) : Except Revert SubnetID :=
  if subnet.route.length = 0 then .error .noParentForSubnet
  else .ok ⟨subnet.root, subnet.route.dropLast⟩

/-- `createSubnetId`: the child subnet of `subnet` run by `actor`. -/
def createSubnetId (subnet : SubnetID) (actor : Address) : SubnetID :=
  ⟨subnet.root, subnet.route ++ [actor]⟩

/-- The longest common prefix of two routes, as the loop of `commonParent` finds it. -/
def commonRoute : List Address → List Address → List Address
  | a :: route1, b :: route2 => if a = b then a :: commonRoute route1 route2 else []
  | _, _ => []

/-- `commonParent`: the deepest subnet above both, or the empty id across roots. -/
def commonParent (subnet1 subnet2 : SubnetID) : SubnetID :=
  if subnet1.root ≠ subnet2.root then empty
  else ⟨subnet1.root, commonRoute subnet1.route subnet2.route⟩

/-- `down`: the child of `subnet2` on the way to `subnet1`, which must lie strictly below it. -/
def down (subnet1 subnet2 : SubnetID) : Except Revert SubnetID :=
  if subnet1.root ≠ subnet2.root then .error .differentRootNetwork
  else if subnet1.route.length ≤ subnet2.route.length then .error .invalidRoute
  else
    .ok ⟨subnet1.root,
      subnet1.route.take ((commonRoute subnet1.route subnet2.route).length + 1)⟩

end SubnetID

/-- The direction in which a message is applied (`IPCMsgType`). -/
inductive IPCMsgType
  | bottomUp
  | topDown
  deriving DecidableEq, Repr

/-- `CrossMsgHelper.applyType`. -/
def IpcEnvelope.applyType (message : IpcEnvelope) (currentSubnet : SubnetID) : IPCMsgType :=
  let toSubnet := message.toAddr.subnetId
  let fromSubnet := message.fromAddr.subnetId
  let currentParentSubnet := currentSubnet.commonParent toSubnet
  let messageParentSubnet := fromSubnet.commonParent toSubnet
  if currentParentSubnet.equals messageParentSubnet &&
      decide (fromSubnet.route.length > messageParentSubnet.route.length) then .bottomUp
  else .topDown

namespace SubnetID

@[simp]
theorem equals_iff (subnet1 subnet2 : SubnetID) : subnet1.equals subnet2 = true ↔ subnet1 = subnet2 := by
  simp [equals]

theorem commonRoute_self (route : List Address) : commonRoute route route = route := by
  induction route with
  | nil => rfl
  | cons a rest ih => simp [commonRoute, ih]

theorem commonRoute_append (route extra : List Address) :
    commonRoute (route ++ extra) route = route := by
  induction route with
  | nil => cases extra <;> rfl
  | cons a rest ih => simp [commonRoute, ih]

theorem commonRoute_comm (route1 route2 : List Address) :
    commonRoute route1 route2 = commonRoute route2 route1 := by
  induction route1 generalizing route2 with
  | nil => cases route2 <;> rfl
  | cons a rest ih =>
    cases route2 with
    | nil => rfl
    | cons b rest2 =>
      by_cases same : a = b
      · simp [commonRoute, same, ih]
      · simp [commonRoute, same, Ne.symm same]

theorem commonRoute_prefix_left (route1 route2 : List Address) :
    commonRoute route1 route2 <+: route1 := by
  induction route1 generalizing route2 with
  | nil => exact List.nil_prefix
  | cons a rest ih =>
    cases route2 with
    | nil => exact List.nil_prefix
    | cons b rest2 =>
      simp only [commonRoute]
      split
      · exact List.cons_prefix_cons.mpr ⟨rfl, ih rest2⟩
      · exact List.nil_prefix

theorem commonRoute_prefix_right (route1 route2 : List Address) :
    commonRoute route1 route2 <+: route2 := by
  rw [commonRoute_comm]
  exact commonRoute_prefix_left route2 route1

/-- Every common prefix of two routes is a prefix of the one `commonRoute` finds. -/
theorem prefix_commonRoute {p route1 route2 : List Address} (prefix1 : p <+: route1)
    (prefix2 : p <+: route2) : p <+: commonRoute route1 route2 := by
  induction p generalizing route1 route2 with
  | nil => exact List.nil_prefix
  | cons a rest ih =>
    cases route1 with
    | nil => exact absurd (List.prefix_nil.mp prefix1) (List.cons_ne_nil a rest)
    | cons b rest1 =>
      cases route2 with
      | nil => exact absurd (List.prefix_nil.mp prefix2) (List.cons_ne_nil a rest)
      | cons c rest2 =>
        obtain ⟨rfl, tail1⟩ := List.cons_prefix_cons.mp prefix1
        obtain ⟨rfl, tail2⟩ := List.cons_prefix_cons.mp prefix2
        simp only [commonRoute, if_true]
        exact List.cons_prefix_cons.mpr ⟨rfl, ih tail1 tail2⟩

/-- Cutting the first route cuts the common prefix. -/
theorem commonRoute_take (route1 route2 : List Address) (k : Nat) :
    commonRoute (route1.take k) route2 = (commonRoute route1 route2).take k := by
  induction route1 generalizing route2 k with
  | nil => simp [commonRoute]
  | cons a rest ih =>
    cases k with
    | zero => simp [commonRoute]
    | succ k =>
      cases route2 with
      | nil => rfl
      | cons b rest2 =>
        by_cases same : a = b
        · simp [commonRoute, same, ih]
        · simp [commonRoute, same]

/-- A prefix of a route is its own common prefix with it. -/
theorem commonRoute_of_prefix {route1 route2 : List Address} (isPrefix : route1 <+: route2) :
    commonRoute route1 route2 = route1 := by
  obtain ⟨extra, rfl⟩ := isPrefix
  rw [commonRoute_comm]
  exact commonRoute_append route1 extra

/-- The way down from a subnet to a subnet of its child is that child. -/
theorem down_createSubnetId (subnet : SubnetID) (actor : Address) (below : List Address) :
    (⟨subnet.root, subnet.route ++ actor :: below⟩ : SubnetID).down subnet =
      .ok (subnet.createSubnetId actor) := by
  have route := commonRoute_append subnet.route (actor :: below)
  simp only [down, ne_eq, not_true_eq_false, if_false, List.length_append, List.length_cons]
  rw [if_neg (by omega), route, createSubnetId, List.take_length_add_append]
  simp

end SubnetID

/-- A subnet that a message passes between `fromSubnet` and `toSubnet`: on the source's route no
higher than their common parent, or on the destination's route below it. -/
def SubnetID.OnRoute (fromSubnet toSubnet current : SubnetID) : Prop :=
  current.root = fromSubnet.root ∧
    (current.route <+: fromSubnet.route ∧
        (fromSubnet.commonParent toSubnet).route.length ≤ current.route.length ∨
      current.route <+: toSubnet.route ∧
        (fromSubnet.commonParent toSubnet).route.length < current.route.length)

theorem SubnetID.commonParent_route {subnet1 subnet2 : SubnetID}
    (sameRoot : subnet1.root = subnet2.root) :
    subnet1.commonParent subnet2 = ⟨subnet1.root, commonRoute subnet1.route subnet2.route⟩ := by
  simp [commonParent, sameRoot]

/-- `commonParent` does not depend on the order of its arguments. -/
theorem SubnetID.commonParent_comm (subnet1 subnet2 : SubnetID) :
    subnet1.commonParent subnet2 = subnet2.commonParent subnet1 := by
  by_cases same : subnet1.root = subnet2.root
  · rw [commonParent_route same, commonParent_route same.symm, same, commonRoute_comm]
  · simp only [commonParent, if_pos same, if_pos (Ne.symm same)]

/-- **Direction along the route.** For a message between two subnets of one root, with `L` their
common parent: at every subnet on its route, `applyType` answers bottom-up exactly on the source's
side and when the source lies strictly below `L`, and top-down everywhere else; the test of
`commitCrossMessage` whether the current subnet is the common parent of the destination and the
source holds exactly at `L`; and `commonParent` is symmetric and gives the longest common prefix of
the two routes. -/
theorem applyType_on_route (message : IpcEnvelope) {fromSubnet toSubnet : SubnetID}
    (source : message.fromAddr.subnetId = fromSubnet)
    (destination : message.toAddr.subnetId = toSubnet) (sameRoot : fromSubnet.root = toSubnet.root) :
    (∀ current, fromSubnet.OnRoute toSubnet current →
      (message.applyType current = .bottomUp ↔
        current.route <+: fromSubnet.route ∧
          (fromSubnet.commonParent toSubnet).route.length < fromSubnet.route.length)) ∧
    (∀ current, (toSubnet.commonParent fromSubnet).equals current = true ↔
      current = fromSubnet.commonParent toSubnet) ∧
    toSubnet.commonParent fromSubnet = fromSubnet.commonParent toSubnet ∧
    (fromSubnet.commonParent toSubnet).root = fromSubnet.root ∧
    (fromSubnet.commonParent toSubnet).route <+: fromSubnet.route ∧
    (fromSubnet.commonParent toSubnet).route <+: toSubnet.route ∧
    ∀ p, p <+: fromSubnet.route → p <+: toSubnet.route →
      p <+: (fromSubnet.commonParent toSubnet).route := by
  have parent := SubnetID.commonParent_route sameRoot
  have symmetric := SubnetID.commonParent_comm toSubnet fromSubnet
  refine ⟨fun current ⟨root, along⟩ => ?_, fun current => ?_, symmetric, by rw [parent], ?_, ?_,
    fun p prefix1 prefix2 => ?_⟩
  · simp only [IpcEnvelope.applyType, source, destination]
    rw [SubnetID.commonParent_route (root.trans sameRoot), parent]
    rw [parent] at along
    rcases along with ⟨up, atLeast⟩ | ⟨down, below⟩
    · -- on the source's side, the common parent with the destination is the source's
      have same : SubnetID.commonRoute current.route toSubnet.route =
          SubnetID.commonRoute fromSubnet.route toSubnet.route := by
        rw [List.prefix_iff_eq_take.mp up, SubnetID.commonRoute_take,
          List.take_of_length_le (by simpa using atLeast)]
      simp [same, root, up]
    · -- on the destination's side below the common parent, it is the subnet itself
      have self := SubnetID.commonRoute_of_prefix down
      have notSource : ¬ current.route <+: fromSubnet.route := fun up =>
        absurd (SubnetID.prefix_commonRoute up down).length_le (by simp at below; omega)
      have differ : current.route ≠ SubnetID.commonRoute fromSubnet.route toSubnet.route := by
        intro same
        rw [same] at below
        simp at below
      simp [self, notSource, differ]
  · rw [symmetric, SubnetID.equals_iff, eq_comm]
  · rw [parent]
    exact SubnetID.commonRoute_prefix_left _ _
  · rw [parent]
    exact SubnetID.commonRoute_prefix_right _ _
  · rw [parent]
    exact SubnetID.prefix_commonRoute prefix1 prefix2

/-- A message from `/1/[1, 2]` to its sibling `/1/[1, 3]`. -/
theorem applyType_on_route_siblings :
    let message : IpcEnvelope :=
      ⟨.call, ⟨⟨1, [1, 3]⟩, ⟨1, [9]⟩⟩, ⟨⟨1, [1, 2]⟩, ⟨1, [8]⟩⟩, 0, 0, []⟩
    message.fromAddr.subnetId = ⟨1, [1, 2]⟩ ∧ message.toAddr.subnetId = ⟨1, [1, 3]⟩ ∧
      (⟨1, [1, 2]⟩ : SubnetID).root = (⟨1, [1, 3]⟩ : SubnetID).root ∧
      message.applyType ⟨1, [1]⟩ = .bottomUp ∧ message.applyType ⟨1, [1, 3]⟩ = .topDown ∧
      ((∀ current, SubnetID.OnRoute ⟨1, [1, 2]⟩ ⟨1, [1, 3]⟩ current →
        (message.applyType current = .bottomUp ↔
          current.route <+: [1, 2] ∧
            (SubnetID.commonParent ⟨1, [1, 2]⟩ ⟨1, [1, 3]⟩).route.length < [1, 2].length)) ∧
      (∀ current, (SubnetID.commonParent ⟨1, [1, 3]⟩ ⟨1, [1, 2]⟩).equals current = true ↔
        current = SubnetID.commonParent ⟨1, [1, 2]⟩ ⟨1, [1, 3]⟩) ∧
      SubnetID.commonParent ⟨1, [1, 3]⟩ ⟨1, [1, 2]⟩ = SubnetID.commonParent ⟨1, [1, 2]⟩ ⟨1, [1, 3]⟩ ∧
      (SubnetID.commonParent ⟨1, [1, 2]⟩ ⟨1, [1, 3]⟩).root = 1 ∧
      (SubnetID.commonParent ⟨1, [1, 2]⟩ ⟨1, [1, 3]⟩).route <+: [1, 2] ∧
      (SubnetID.commonParent ⟨1, [1, 2]⟩ ⟨1, [1, 3]⟩).route <+: [1, 3] ∧
      ∀ p, p <+: [1, 2] → p <+: [1, 3] →
        p <+: (SubnetID.commonParent ⟨1, [1, 2]⟩ ⟨1, [1, 3]⟩).route) :=
  ⟨rfl, rfl, rfl, rfl, rfl, applyType_on_route _ rfl rfl rfl⟩

end Ipc.Contracts
