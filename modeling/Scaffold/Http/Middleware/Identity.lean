import Scaffold.Http.Middleware
import Scaffold.Python.IpAddress.Theorems

namespace Scaffold.Http

open Positional (digits value value_digits digits_lt)
open Python

-- The address that the server gives for a client, as it is counted.
def addressOf (scope : RequestScope) : Option IpAddress :=
  scope.client.bind fun client => clientAddress client.1

theorem unknown_ne_compressed (address : IpAddress) : "unknown".toList ≠ address.compressed := by
  intro h
  cases address with
  | v4 address =>
      have hu : 'u' ∈ (IpAddress.v4 address).compressed := by
        rw [← h]
        decide
      obtain hdigit | hdot := IPv4Address.mem_text hu
      · exact absurd hdigit (by decide)
      · exact absurd hdot (by decide)
  | v6 address =>
      have hcolon : ':' ∈ "unknown".toList := by
        rw [h]
        exact address.colon_mem_text
      exact absurd hcolon (by decide)

theorem mapped_bound {ip : Nat} (h : ip < 256 ^ 4) : 65535 * 4294967296 + ip < 65536 ^ 8 := by
  omega

-- The IPv6 address that stands for an IPv4 address.
def mappedAddress (address : IPv4Address) : IPv6Address where
  ip := 65535 * 4294967296 + address.ip
  scopeId := none
  bound := mapped_bound address.bound
  scope := unscoped

-- The notation of a dual-stack server.
def mappedText (address : IPv4Address) : List Char :=
  [':', ':', 'f', 'f', 'f', 'f', ':'] ++ address.text

theorem colon_not_mem_text (address : IPv4Address) : ':' ∉ address.text := by
  intro h
  obtain hdigit | hdot := IPv4Address.mem_text h
  · exact absurd hdigit (by decide)
  · exact absurd hdot (by decide)

theorem dot_mem_text (address : IPv4Address) : '.' ∈ address.text := by
  have hlength := Positional.digits_length 256 4 address.ip
  unfold IPv4Address.text
  generalize digits 256 4 address.ip = ds at hlength
  obtain _ | ⟨a, _ | ⟨b, ds⟩⟩ := ds
  · cases hlength
  · cases hlength
  · rw [List.map_cons, List.map_cons, List.intercalate_cons_cons]
    simp

theorem ipv4Text_length (address : IPv4Address) : address.text.length ≤ 16 := by
  have hparts : ∀ part ∈ (digits 256 4 address.ip).map Decimal.decimal, part.length ≤ 3 := by
    intro part hpart
    obtain ⟨d, hd, rfl⟩ := List.mem_map.mp hpart
    refine (Decimal.decimal_length_le_iff (by decide)).mpr ?_
    have := digits_lt (by decide) 4 address.ip d hd
    omega
  have hlength := intercalate_length '.' hparts
  rw [List.length_map, Positional.digits_length] at hlength
  exact hlength

theorem mappedText_split (address : IPv4Address) :
    (mappedText address).splitOn ':' = [[], [], ['f', 'f', 'f', 'f'], address.text] := by
  have hparts : ∀ part ∈ [[], [], ['f', 'f', 'f', 'f'], address.text], ':' ∉ part := by
    intro part hpart
    simp only [List.mem_cons, List.not_mem_nil, or_false] at hpart
    obtain rfl | rfl | rfl | rfl := hpart
    · decide
    · decide
    · decide
    · exact colon_not_mem_text address
  have htext : mappedText address = [':'].intercalate [[], [], ['f', 'f', 'f', 'f'], address.text] := by
    simp [mappedText, List.intercalate_cons_cons]
  rw [htext]
  exact List.splitOn_intercalate ':' hparts (List.cons_ne_nil _ _)

theorem ipv6Number_mappedText (address : IPv4Address) :
    ipv6Number (mappedText address) = some (65535 * 4294967296 + address.ip) := by
  obtain ⟨high, low, hdigits⟩ : ∃ high low, digits 65536 2 address.ip = [high, low] := ⟨_, _, rfl⟩
  have hlt := digits_lt (by decide : 0 < 65536) 2 address.ip
  have hbound : address.ip < 65536 ^ 2 := address.bound
  have hvalue := value_digits hbound
  rw [hdigits] at hlt hvalue
  have hlength : (mappedText address).length ≤ 45 := by
    have := ipv4Text_length address
    rw [mappedText, List.length_append]
    simp only [List.length_cons, List.length_nil]
    omega
  have hparts : withoutIPv4 ((mappedText address).splitOn ':') =
      some (around [] ([65535, high, low].map hextet)) := by
    have hdot := dot_mem_text address
    rw [mappedText_split]
    unfold withoutIPv4
    simp only [List.getLast?_cons_cons, List.getLast?_singleton, if_pos hdot, IPv4Address.ofText_text,
      Option.map_some, hdigits]
    rfl
  have hread : ∀ d ∈ [65535, high, low], d < 65536 := by
    intro d hd
    obtain rfl | hd := List.mem_cons.mp hd
    · decide
    · exact hlt d hd
  have hlayout : partLayout (around [] ([65535, high, low].map hextet)) = some (0, 5, 3) :=
    partLayout_around nofun ne_nil_of_map (by simp)
  have hlow : ((around [] ([65535, high, low].map hextet)).drop
      ((around [] ([65535, high, low].map hextet)).length - 3)).mapM parseHextet = some [65535, high, low] := by
    rw [← mapM_hextets hread]
    exact congrArg (List.mapM parseHextet) (around_drop [] _)
  have hhigh : ((around [] ([65535, high, low].map hextet)).take 0).mapM parseHextet = some [] := rfl
  rw [ipv6Number_of_split hlength (by simp [mappedText_split]) hparts (by simp [around]) hlayout hhigh hlow]
  change some (value 65536 [0, 0, 0, 0, 0, 65535, high, low]) = _
  simp only [value, List.foldl_cons, List.foldl_nil] at hvalue ⊢
  rw [← hvalue]
  ring_nf

-- A client of a dual-stack server is counted under its IPv4 address.
theorem clientAddress_mapped (address : IPv4Address) : clientAddress (mappedText address) = some (.v4 address) := by
  have hcolon : ':' ∈ mappedText address := List.mem_cons_self
  have hnone : IPv4Address.ofText (mappedText address) = none := by
    rw [Option.eq_none_iff_forall_not_mem]
    intro other hother
    obtain h | h := IPv4Address.chars_of_ofText hother ':' hcolon <;> exact absurd h (by decide)
  have hclean : ∀ c, c = '%' ∨ c = '/' → c ∉ mappedText address := by
    intro c hc hmem
    obtain hmem | hmem := List.mem_append.mp hmem
    · revert hmem
      obtain rfl | rfl := hc <;> decide
    · obtain hdigit | rfl := IPv4Address.mem_text hmem
      · revert hdigit
        obtain rfl | rfl := hc <;> decide
      · revert hc
        decide
  have hnumber : IPv6Address.ofText (mappedText address) = some (mappedAddress address) := by
    have hsplit : (mappedText address).splitOn '%' = [mappedText address] :=
      List.splitOn_eq_singleton (hclean '%' (.inl rfl))
    unfold IPv6Address.ofText
    rw [if_neg (hclean '/' (.inr rfl)), hsplit]
    dsimp only
    rw [ipv6Number_mappedText, Option.bind_some, dif_pos (mapped_bound address.bound)]
    rfl
  have hbound : address.ip < 4294967296 := address.bound
  have hhigh : (mappedAddress address).ip / 4294967296 = 65535 := by
    change (65535 * 4294967296 + address.ip) / 4294967296 = 65535
    omega
  have hlow : (mappedAddress address).ip % 4294967296 = address.ip := by
    change (65535 * 4294967296 + address.ip) % 4294967296 = address.ip
    omega
  unfold clientAddress ipAddress
  rw [hnone, hnumber, Option.map_some, Option.map_some]
  simp only [IPv6Address.ipv4Mapped, if_pos hhigh, hlow]

theorem clientAddress_text (address : IPv4Address) : clientAddress address.text = some (.v4 address) := by
  have hread : ipAddress address.text = some (.v4 address) := ipAddress_compressed (.v4 address)
  unfold clientAddress
  rw [hread]
  rfl

def identityText (address : Option IpAddress) : String :=
  address.elim "ip:unknown" fun address => String.ofList ("ip:".toList ++ address.compressed)

theorem clientIdentity_eq (scope : RequestScope) : clientIdentity scope = identityText (addressOf scope) := by
  unfold clientIdentity addressOf
  cases scope.client.bind fun client => clientAddress client.1 <;> rfl

-- All clients without an address share their identity.
theorem clientIdentity_eq_iff (scope other : RequestScope) :
    clientIdentity scope = clientIdentity other ↔ addressOf scope = addressOf other := by
  have hunknown : "ip:unknown" = String.ofList ("ip:".toList ++ "unknown".toList) := by decide
  have hsame : ∀ address : IpAddress, "ip:unknown" ≠ String.ofList ("ip:".toList ++ address.compressed) := by
    intro address h
    rw [hunknown] at h
    exact unknown_ne_compressed address (List.append_cancel_left (String.ofList_injective h))
  rw [clientIdentity_eq, clientIdentity_eq]
  cases addressOf scope with
  | none =>
      cases addressOf other with
      | none => exact ⟨fun _ => rfl, fun _ => rfl⟩
      | some address => exact ⟨fun h => absurd h (hsame address), nofun⟩
  | some address =>
      cases addressOf other with
      | none => exact ⟨fun h => absurd h.symm (hsame address), nofun⟩
      | some address' =>
          constructor
          · intro h
            exact congrArg some (compressed_injective (List.append_cancel_left (String.ofList_injective h)))
          · intro h
            rw [Option.some.inj h]

-- Clients are counted together exactly when they have one address, and the two notations of an IPv4
-- address are one address.
theorem clientIdentity_shared (scope other : RequestScope) :
    (clientIdentity scope = clientIdentity other ↔ addressOf scope = addressOf other) ∧
      ∀ (address : IPv4Address) (port port' : Nat),
        clientIdentity { scope with client := some (address.text, port) } =
          clientIdentity { other with client := some (mappedText address, port') } := by
  refine ⟨clientIdentity_eq_iff scope other, fun address port port' => ?_⟩
  rw [clientIdentity_eq_iff]
  exact (clientAddress_text address).trans (clientAddress_mapped address).symm

end Scaffold.Http
