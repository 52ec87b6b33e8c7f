import RingStore.Decimal
import RingStore.Failure
import RingStore.Text.Utf8

/-!
# Addresses

The address of a host is written as the host's name and the number of a service there, with a colon
between them. A name may hold colons itself, so the last one counts. The number may have leading
zeros and one `+`, hence an address can be written in several ways: two texts with the same name
and the same number denote the same address.

## Main definitions

* `Address`: a name and a service number.
* `Address.parse`: the address that a text denotes.
-/

namespace RingStore

/-- Where a host accepts connections. -/
structure Address where
  /-- The name of the host. -/
  name : String
  /-- The number of the service. -/
  service : UInt16
  deriving DecidableEq, Inhabited

/-- Why a text denotes no address. -/
inductive AddressError where
  /-- There is no colon in it. -/
  | missingService
  /-- What follows the last colon is no service number. -/
  | invalidService
  deriving DecidableEq, Inhabited

/-- The failure of an attempt to connect to such a text. -/
def AddressError.failure : AddressError → Failure
  | missingService => ⟨.invalidInput, "invalid socket address"⟩
  | invalidService => ⟨.invalidInput, "invalid port value"⟩

namespace Address

/-- The service number that a text denotes, if it denotes one in range. -/
def service? (text : String) : Option UInt16 :=
  (Decimal.nat? (UInt16.size - 1) (Text.toBytes text)).map Nat.toUInt16

/-- The address that a text denotes. -/
def parse (text : String) : Except AddressError Address :=
  let (reversedService, reversedName) := text.toList.reverse.span (· ≠ ':')
  match reversedName with
  | [] => .error .missingService
  | _ :: reversedName =>
    match service? (String.ofList reversedService.reverse) with
    | some service => .ok ⟨String.ofList reversedName.reverse, service⟩
    | none => .error .invalidService

end Address

end RingStore
