import Qslary.Addresses.Model

/-!
# The order of addresses

`operator<` and `operator==` are the lexicographic order and the equality of what stands
at `GetAddr()`, so addresses of all classes can be keys of one ordered container.
-/

namespace Qslary.Addresses

open Qslary.Foundation

namespace Address

@[simp] theorem length_getAddr (a : Address) : a.GetAddr.length = a.GetAddrLen := by
  cases a with
  | ipv4 address => simp [GetAddr, GetAddrLen, bytes16, bytes32, bytes64]
  | ipv6 address => simp [GetAddr, GetAddrLen, bytes16, bytes32]
  | unix address => simp [GetAddr, GetAddrLen]

theorem lt_iff (a b : Address) : a.lt b = true ↔ a.GetAddr < b.GetAddr := by
  rw [← memcmp_lt_iff, length_getAddr, length_getAddr]
  rfl

theorem eq_iff (a b : Address) : a.eq b = true ↔ a.GetAddr = b.GetAddr := by
  rw [← memcmp_eq_iff, length_getAddr, length_getAddr]
  rfl

/-- The comparison operators order addresses by their bytes, and `!=` is the negation of `==`. -/
theorem address_order :
    OrdersKeys lt eq ∧ (∀ a b : Address, a.ne b = !a.eq b) ∧
      ∀ a b : Address, (a.lt b = true ↔ a.GetAddr < b.GetAddr) ∧
        (a.eq b = true ↔ a.GetAddr = b.GetAddr) :=
  ⟨ordersKeys_of_image GetAddr lt_iff eq_iff, fun _ _ => rfl, fun a b => ⟨lt_iff a b, eq_iff a b⟩⟩

/-- A shorter Unix address is in front of the one it is the beginning of. -/
example :
    lt (.unix ⟨fun _ => 1, 2⟩) (.unix ⟨fun _ => 1, 3⟩) = true ∧
      lt (.unix ⟨fun _ => 1, 3⟩) (.ipv4 (.new 0 0)) = true := by
  decide

end Address

end Qslary.Addresses
