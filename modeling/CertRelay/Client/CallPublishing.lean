import CertRelay.Client.CallTrust

/-!
# What a client publishes

A message is built of the chain of a handle and of a proof that a relay gives for it.  Each
record set that lacks a signature is signed, and the message goes to several relays.

**Results.**
* `foldlM_signOne_eq_ok`: all record sets that lack a signature are signed;
* `safe_broadcast`: a broadcast succeeds only if a relay has accepted the message;
* `safe_publish`: what is published is signed like that, and a relay has accepted it.
-/

namespace CertRelay
namespace Calls

open SendQuery Script

section Publishing

variable {ν Msg L : Type} {K : CallCrates ν Msg L} {f₀ : Fabric ν} {calls : List Call}
  {log : List (Moment ν)}

/-- A relay has given the bytes for the request. -/
def Proved (log : List (Moment ν)) (request : ProofRequest) (bytes : Bytes) : Prop :=
  ∃ body net url status, request.json = .ok body ∧ Seen log net ∧
    net.prove (url ++ "/chain-proof") body = .response status bytes none ∧
    isSuccess status = true

/-- A relay has accepted the message. -/
def Accepted (log : List (Moment ν)) (message : Bytes) : Prop :=
  ∃ net url status body broken, Seen log net ∧
    net.message (url ++ "/message") message = .response status body broken ∧
    isSuccess status = true

/-- The message that is built of the chain and the proof, in which every record set that
lacked a signature has one by the key. -/
def FullySigned (K : CallCrates ν Msg L) (chain : K.signing.Chain) (records : RecordSet)
    (secretKey : Hash32) (primary : Bool) (proofBytes message : Bytes) : Prop :=
  ∃ proof draft unsigned sigs, K.signing.proofFromSlice proofBytes = .ok proof ∧
    K.signing.build chain records proof = .ok (draft, unsigned) ∧
    List.Forall₂ (fun u sig =>
      K.signing.signSchnorr (K.signing.signingId (flagged K primary u)) secretKey = .ok sig)
      unsigned sigs ∧
    message = K.signing.toBytes ((unsigned.zip sigs).foldl (packed K primary) draft)

/-- The message is signed like that, with a proof that a relay has given for its chain. -/
def SignedFor (K : CallCrates ν Msg L) (cert : Bytes) (records : RecordSet) (secretKey : Hash32)
    (primary : Bool) (log : List (Moment ν)) (message : Bytes) : Prop :=
  ∃ chain proofBytes, K.signing.chainFromSlice cert = .ok chain ∧
    Proved log (K.signing.chainProofRequest chain records) proofBytes ∧
    FullySigned K chain records secretKey primary proofBytes message

theorem Proved.longer
    {request : ProofRequest}
    {bytes : Bytes}
    (h : Proved log request bytes)
    (more : List (Moment ν)) :
    Proved (log ++ more) request bytes := by
  obtain ⟨body, net, url, status, hjson, hseen, hreply⟩ := h
  exact ⟨body, net, url, status, hjson, hseen.longer more, hreply⟩

theorem Accepted.longer
    {message : Bytes}
    (h : Accepted log message)
    (more : List (Moment ν)) :
    Accepted (log ++ more) message := by
  obtain ⟨net, url, status, body, broken, hseen, hreply⟩ := h
  exact ⟨net, url, status, body, broken, hseen.longer more, hreply⟩

theorem SignedFor.longer
    {cert : Bytes}
    {records : RecordSet}
    {secretKey : Hash32}
    {primary : Bool}
    {message : Bytes}
    (h : SignedFor K cert records secretKey primary log message)
    (more : List (Moment ν)) :
    SignedFor K cert records secretKey primary (log ++ more) message := by
  obtain ⟨chain, proofBytes, hchain, hproof, hsigned⟩ := h
  exact ⟨chain, proofBytes, hchain, hproof.longer more, hsigned⟩

theorem safe_proveLoop
    (request : ProofRequest)
    {body : Bytes}
    (hbody : request.json = .ok body)
    (last : ClientError)
    (relays : List String) :
    Safe K f₀ calls (fun log => Proved log request) (proveLoop K body last relays) log := by
  induction relays generalizing log last with
  | nil =>
      exact Keeps.throw last
  | cons url relays ih =>
      refine Keeps.bindOk (Q := fun log reply => ∃ net, Seen log net ∧
        net.prove (url ++ "/chain-proof") body = reply) (safe_askSeen ?_)
        (fun more reply hreply => ?_)
      · rintro more net reply hseen hreply
        cases hreply
        exact ⟨net, hseen, rfl⟩
      cases reply with
      | unreachable e =>
          exact Keeps.bindOk (safe_markFailed url) (fun _ _ _ => ih _)
      | response status bytes broken =>
          dsimp only
          split_ifs with hsuccess
          · refine Keeps.bindOk (safe_markAlive url) (fun more' _ _ => ?_)
            cases broken with
            | none =>
                obtain ⟨net, hseen, hnet⟩ := hreply
                exact Keeps.pureOk
                  ⟨body, net, url, status, hbody, hseen.longer more', hnet, hsuccess⟩
            | some e =>
                exact Keeps.throw _
          · exact Keeps.bindOk (safe_markFailed url) (fun _ _ _ => ih _)

theorem safe_prove
    (request : ProofRequest) :
    Safe K f₀ calls (fun log => Proved log request) (prove K request) log := by
  refine Keeps.bindOk safe_bootstrap (fun _ _ _ => ?_)
  refine Keeps.bindOk (safe_ask (fun _ _ h => Fallible.mapError_eq_ok.1 h))
    (fun _ body hbody => ?_)
  refine Keeps.bindOk (safe_shuffledUrlsN 4) (fun _ relays _ => ?_)
  exact safe_proveLoop request hbody .noPeers relays

/-- If a broadcast is reported as sent, a relay has accepted it. -/
theorem safe_broadcastLoop
    (message : Bytes)
    (urls : List String)
    {sent : Bool × Option ClientError}
    (hsent : sent.1 = true → Accepted log message) :
    Safe K f₀ calls (fun log sent => sent.1 = true → Accepted log message)
      (broadcastLoop K message urls sent) log := by
  induction urls generalizing log sent with
  | nil =>
      exact Keeps.pureOk hsent
  | cons url urls ih =>
      refine Keeps.bindOk (Q := fun log reply => ∃ net, Seen log net ∧
        net.message (url ++ "/message") message = reply) (safe_askSeen ?_)
        (fun more reply hreply => ?_)
      · rintro more net reply hseen hreply
        cases hreply
        exact ⟨net, hseen, rfl⟩
      cases reply with
      | unreachable e =>
          exact ih (fun h => (hsent h).longer more)
      | response status body broken =>
          dsimp only
          split_ifs with hsuccess
          · obtain ⟨net, hseen, hnet⟩ := hreply
            exact ih (fun _ => ⟨net, url, status, body, broken, hseen, hnet, hsuccess⟩)
          · exact ih (fun h => (hsent h).longer more)

theorem safe_broadcast
    (message : Bytes) :
    Safe K f₀ calls (fun log _ => Accepted log message) (broadcast K message) log := by
  refine Keeps.bindOk safe_bootstrap (fun _ _ _ => ?_)
  refine Keeps.bindOk (safe_shuffledUrlsN 4) (fun _ urls _ => ?_)
  split_ifs
  · exact Keeps.throw _
  · refine Keeps.bindOk (safe_broadcastLoop message urls (fun h => by cases h))
      (fun _ sent hsent => ?_)
    split_ifs with haccepted
    · exact Keeps.pureOk (hsent haccepted)
    · exact Keeps.throw _

/-- **The loop over record sets signs each of them.** -/
theorem foldlM_signOne_eq_ok
    {secretKey : Hash32}
    {primary : Bool}
    {unsigned : List K.signing.Unsigned}
    {draft draft' : K.signing.Draft} :
    unsigned.foldlM (signOne K secretKey primary) draft = .ok draft' ↔
      ∃ sigs, List.Forall₂ (fun u sig =>
        K.signing.signSchnorr (K.signing.signingId (flagged K primary u)) secretKey = .ok sig)
        unsigned sigs ∧
        draft' = (unsigned.zip sigs).foldl (packed K primary) draft := by
  induction unsigned generalizing draft with
  | nil =>
      constructor
      · rintro h
        cases h
        exact ⟨[], .nil, rfl⟩
      · rintro ⟨sigs, hsigs, rfl⟩
        cases hsigs
        rfl
  | cons u unsigned ih =>
      rw [List.foldlM_cons, Fallible.bind_eq_ok]
      constructor
      · rintro ⟨draft₁, hone, hrest⟩
        obtain ⟨sig, hsig, hpure⟩ := Fallible.bind_eq_ok.1 hone
        cases hpure
        obtain ⟨sigs, hsigs, rfl⟩ := ih.1 hrest
        exact ⟨sig :: sigs, .cons (Fallible.mapError_eq_ok.1 hsig) hsigs, rfl⟩
      · rintro ⟨sigs, hsigs, rfl⟩
        cases hsigs with
        | cons hsig hsigs =>
            refine ⟨_, Fallible.bind_eq_ok.2 ⟨_, Fallible.mapError_eq_ok.2 hsig, rfl⟩, ?_⟩
            exact ih.2 ⟨_, hsigs, rfl⟩

theorem signedMessage_eq_ok
    {chain : K.signing.Chain}
    {records : RecordSet}
    {secretKey : Hash32}
    {primary : Bool}
    {proofBytes message : Bytes}
    (h : signedMessage K chain records secretKey primary proofBytes = .ok message) :
    FullySigned K chain records secretKey primary proofBytes message := by
  obtain ⟨proof, hproof, h⟩ := Fallible.bind_eq_ok.1 h
  obtain ⟨built, hbuilt, h⟩ := Fallible.bind_eq_ok.1 h
  obtain ⟨draft, hdraft, h⟩ := Fallible.bind_eq_ok.1 h
  cases h
  obtain ⟨sigs, hsigs, rfl⟩ := foldlM_signOne_eq_ok.1 hdraft
  exact ⟨proof, built.1, built.2, sigs, Fallible.mapError_eq_ok.1 hproof, hbuilt, hsigs, rfl⟩

theorem safe_sign
    (cert : Bytes)
    (records : RecordSet)
    (secretKey : Hash32)
    (primary : Bool) :
    Safe K f₀ calls (SignedFor K cert records secretKey primary)
      (sign K cert records secretKey primary) log := by
  refine Keeps.bindOk (safe_ask (fun _ _ h => Fallible.mapError_eq_ok.1 h))
    (fun _ chain hchain => ?_)
  refine Keeps.bindOk (safe_prove _) (fun _ proofBytes hproof => safe_askSeen ?_)
  rintro more net message _ hmessage
  exact ⟨chain, proofBytes, hchain, hproof.longer more, signedMessage_eq_ok hmessage⟩

/-- What is published is signed, and a relay has accepted it. -/
def Published (K : CallCrates ν Msg L) (cert : Bytes) (records : RecordSet) (secretKey : Hash32)
    (primary : Bool) (log : List (Moment ν)) : Prop :=
  ∃ message, SignedFor K cert records secretKey primary log message ∧ Accepted log message

theorem safe_publish
    (cert : Bytes)
    (records : RecordSet)
    (secretKey : Hash32)
    (primary : Bool) :
    Safe K f₀ calls (fun log _ => Published K cert records secretKey primary log)
      (publish K cert records secretKey primary) log := by
  refine Keeps.bindOk (safe_sign cert records secretKey primary) (fun more message hsigned => ?_)
  refine (safe_broadcast message).later.imp (fun log' result hresult a ha => ?_)
  obtain ⟨⟨more', rfl⟩, haccepted⟩ := hresult
  exact ⟨message, hsigned.longer more', haccepted a ha⟩

/-- What a relay lists. -/
def Listed (log : List (Moment ν)) (infos : List PeerInfo) : Prop :=
  ∃ net url, Seen log net ∧ net.peers url = .ok infos

theorem safe_peers :
    Safe K f₀ calls Listed peers log := by
  refine Keeps.bindOk (safe_shuffledUrlsN 1) (fun _ urls _ => ?_)
  cases urls.head? with
  | none =>
      exact Keeps.throw _
  | some url =>
      exact safe_askSeen (fun _ net infos hseen hnet => ⟨net, url, hseen, hnet⟩)

theorem safe_refreshPeers :
    Safe K f₀ calls Any refreshPeers log := by
  refine Keeps.bindOk (safe_look (Q := Any) (fun _ _ _ => trivial)) (fun _ current _ => ?_)
  refine Keeps.bindOk (safe_gatherPeers current [] none) (fun _ found _ => ?_)
  refine Keeps.bindOk (safe_relays (fun _ => rfl)) (fun _ _ _ => ?_)
  refine Keeps.bindOk (safe_look (Q := Any) (fun _ _ _ => trivial)) (fun _ isEmpty _ => ?_)
  split_ifs
  · exact Keeps.throw _
  · exact Keeps.pureOk trivial

end Publishing

end Calls
end CertRelay
