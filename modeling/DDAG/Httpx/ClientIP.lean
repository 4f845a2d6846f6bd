import DDAG.Connectors.Bind
import DDAG.Lib.Netip

/-!
# The address of a client

`ClientIPWithTrustedProxies` of `internal/httpx/middleware.go`: the address of a request that
comes from a trusted proxy is read from its headers.  A proxy appends the address of its own
peer to the value of `X-Forwarded-For` that this peer sent, and the first item of the value
that is an address is taken.

`client_ip_of_forwarded` says what is taken.  Two values that a peer may send give the same
address exactly if `client_ip_agrees_iff` says so, and `header_changes_client_ip` are two that
do not.
-/

namespace DDAG.Httpx

/-! ## Requests -/

/-- What is read of a request.  A header that is absent is the empty text. -/
structure Request where
  remoteAddr : Text
  forwardedFor : Text := []
  realIP : Text := []

def directIP (r : Request) : Text :=
  match Netip.splitHostPort r.remoteAddr with
  | some (host, _) => host
  | none =>
      if r.remoteAddr.head? = some '[' ∧ r.remoteAddr.getLast? = some ']' then
        Strings.trim (fun c => c = '[' || c = ']') r.remoteAddr
      else r.remoteAddr

variable (net : Netip)

def trustedProxy (addr : net.Addr) (trusted : List net.Range) : Bool :=
  trusted.any fun p => net.contains p addr

/-- The items of `X-Forwarded-For`. -/
def forwardedItems (value : Text) : List Text := (Strings.split value ',').map Strings.trimSpace

/-- The loop over the items. -/
def firstAddr (items : List Text) : Option Text := items.find? net.isAddr

def clientIPWithTrustedProxies (r : Request) (trusted : List net.Range) : Text :=
  let remote := directIP r
  if !(net.parseAddr remote).any (trustedProxy net · trusted) then remote
  else
    let forwarded := if r.forwardedFor ≠ [] then firstAddr net (forwardedItems r.forwardedFor) else none
    match forwarded with
    | some candidate => candidate
    | none =>
        let xr := Strings.trimSpace r.realIP
        if xr ≠ [] ∧ net.isAddr xr then xr else remote

/-! ## Behind a proxy -/

/-- The address of a peer, as a proxy writes it. -/
structure Peer where
  text : Text
  isAddr : net.isAddr text = true
  nonempty : text ≠ []
  plain : ∀ c ∈ text, c ≠ ',' ∧ Strings.isSpace c = false

/-- The value that a proxy sends on: its peer's address, after what the peer sent. -/
def forwardedValue (supplied : Option Text) (peer : Text) : Text :=
  match supplied with
  | none => peer
  | some value => value ++ ", ".toList ++ peer

def viaProxy (remoteAddr realIP : Text) (supplied : Option Text) (peer : Text) : Request :=
  { remoteAddr := remoteAddr, realIP := realIP, forwardedFor := forwardedValue supplied peer }

def FromTrusted (trusted : List net.Range) (remoteAddr : Text) : Prop :=
  (net.parseAddr (directIP { remoteAddr := remoteAddr })).any (trustedProxy net · trusted) = true

/-- The first address in what the peer sent. -/
def suppliedAddr (supplied : Option Text) : Option Text :=
  supplied.bind fun value => firstAddr net (forwardedItems value)

variable {net}

theorem Peer.trimSpace_blank (peer : Peer net) : Strings.trimSpace (' ' :: peer.text) = peer.text := by
  have hself := Strings.trimSpace_of_forall fun c hc => (peer.plain c hc).2
  simpa [Strings.trimSpace, Strings.isSpace] using hself

theorem Peer.not_mem_comma (peer : Peer net) : ',' ∉ peer.text :=
  fun h => (peer.plain ',' h).1 rfl

/-- The items that a proxy sends on are those of its peer and the peer's address. -/
theorem forwardedItems_forwardedValue (supplied : Option Text) (peer : Peer net) :
    forwardedItems (forwardedValue supplied peer.text) =
      (supplied.map forwardedItems).getD [] ++ [peer.text] := by
  cases supplied with
  | none =>
      have hself := Strings.trimSpace_of_forall fun c hc => (peer.plain c hc).2
      simp [forwardedItems, forwardedValue, Strings.split, List.splitOn_eq_singleton peer.not_mem_comma, hself]
  | some value =>
      have hlast : Strings.split (' ' :: peer.text) ',' = [' ' :: peer.text] := by
        refine List.splitOn_eq_singleton fun h => ?_
        rcases List.mem_cons.mp h with hblank | hmem
        · exact absurd hblank (by decide)
        · exact peer.not_mem_comma hmem
      have hsplit : Strings.split (value ++ ", ".toList ++ peer.text) ',' =
          Strings.split value ',' ++ Strings.split (' ' :: peer.text) ',' := by
        rw [List.append_assoc]
        exact List.splitOnP_append_cons value (' ' :: peer.text) (by decide)
      rw [forwardedItems, forwardedValue, hsplit, hlast, List.map_append, List.map_singleton,
        peer.trimSpace_blank]
      rfl

/-- A request behind a trusted proxy has the first address its peer sent, or else the address
of the peer. -/
theorem client_ip_of_forwarded {trusted : List net.Range} {remoteAddr : Text}
    (htrusted : FromTrusted net trusted remoteAddr) (realIP : Text) (supplied : Option Text)
    (peer : Peer net) :
    clientIPWithTrustedProxies net (viaProxy remoteAddr realIP supplied peer.text) trusted =
      (suppliedAddr net supplied).getD peer.text := by
  have hdirect : (net.parseAddr (directIP (viaProxy remoteAddr realIP supplied peer.text))).any
      (trustedProxy net · trusted) = true := htrusted
  have hvalue : forwardedValue supplied peer.text ≠ [] := by
    cases supplied with
    | none => exact peer.nonempty
    | some value => simp [forwardedValue]
  have hfirst : firstAddr net (forwardedItems (forwardedValue supplied peer.text)) =
      some ((suppliedAddr net supplied).getD peer.text) := by
    rw [forwardedItems_forwardedValue, firstAddr, List.find?_append, List.find?_singleton, peer.isAddr,
      if_pos rfl]
    cases supplied with
    | none => rfl
    | some value =>
        show (firstAddr net (forwardedItems value)).or (some peer.text) = _
        cases h : firstAddr net (forwardedItems value) <;> simp [suppliedAddr, h]
  have hforwarded : (viaProxy remoteAddr realIP supplied peer.text).forwardedFor =
      forwardedValue supplied peer.text := rfl
  simp only [clientIPWithTrustedProxies, hdirect, hforwarded, hvalue, hfirst, Bool.not_true,
    Bool.false_eq_true, ↓reduceIte, ne_eq, not_false_eq_true]

/-- Two requests behind a trusted proxy that differ only in the value the peer sent have the
same address exactly if the first addresses in the two values are the same, where a value
without one counts as the address of the peer. -/
theorem client_ip_agrees_iff (trusted : List net.Range) (remoteAddr realIP : Text) (peer : Peer net)
    (htrusted : FromTrusted net trusted remoteAddr) (supplied supplied' : Option Text) :
    clientIPWithTrustedProxies net (viaProxy remoteAddr realIP supplied peer.text) trusted =
        clientIPWithTrustedProxies net (viaProxy remoteAddr realIP supplied' peer.text) trusted ↔
      (suppliedAddr net supplied).getD peer.text = (suppliedAddr net supplied').getD peer.text := by
  rw [client_ip_of_forwarded htrusted, client_ip_of_forwarded htrusted]

/-! ## Two values -/

/-- The proxies of `10.0.0.0/8`. -/
def privateRange : List Netip.ipv4.Range := [(167772160, 8)]

theorem attacker_plain : ∀ c ∈ "203.0.113.9".toList, c ≠ ',' ∧ Strings.isSpace c = false := by
  have hall : "203.0.113.9".toList.all (fun c => c != ',' && !Strings.isSpace c) = true := by decide
  simpa using List.all_eq_true.mp hall

def attacker : Peer Netip.ipv4 where
  text := "203.0.113.9".toList
  isAddr := by decide +kernel
  nonempty := by decide
  plain := attacker_plain

/-- A value without an address changes nothing. -/
theorem unparsable_header_ignored :
    FromTrusted Netip.ipv4 privateRange "10.1.2.3:5678".toList ∧
      clientIPWithTrustedProxies Netip.ipv4
          (viaProxy "10.1.2.3:5678".toList [] (some "unknown, 1.2.3".toList) attacker.text) privateRange =
        clientIPWithTrustedProxies Netip.ipv4
          (viaProxy "10.1.2.3:5678".toList [] none attacker.text) privateRange := by
  have htrusted : FromTrusted Netip.ipv4 privateRange "10.1.2.3:5678".toList := by
    unfold FromTrusted
    decide +kernel
  exact ⟨htrusted, (client_ip_agrees_iff _ _ _ attacker htrusted _ _).mpr (by decide +kernel)⟩

/-- The peer is no trusted proxy, and gets the address it sends. -/
theorem header_changes_client_ip :
    FromTrusted Netip.ipv4 privateRange "10.1.2.3:5678".toList ∧
      (Netip.ipv4.parseAddr attacker.text).any (trustedProxy Netip.ipv4 · privateRange) = false ∧
      clientIPWithTrustedProxies Netip.ipv4
          (viaProxy "10.1.2.3:5678".toList [] none attacker.text) privateRange = attacker.text ∧
      clientIPWithTrustedProxies Netip.ipv4
          (viaProxy "10.1.2.3:5678".toList [] (some "198.51.100.7".toList) attacker.text) privateRange =
        "198.51.100.7".toList := by
  unfold FromTrusted
  decide +kernel

end DDAG.Httpx
