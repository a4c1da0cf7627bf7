import PeerCalls.Proofs.Loopback.Nodes
import PeerCalls.Proofs.Session.Gate

/-!
# From one session to the other

A frame is validated, cut and pushed by the session that sends it; the network puts it into the
inbox of the other side, under the number by which that side knows the sender; and there it is
validated again before it is handed to the application.  The second validation is of the cut
frame, and its rules come from another configuration.  It never fails: a valid frame stays
valid when it is cut, and of a configuration only the sampling rates decide.
-/

namespace PeerCalls

/-- A valid frame in a running call is reported, once and as it is. -/
theorem Progress.handle_media {progress : Progress} {config : Config} {friend : Friend}
    {payload : Payload} {call : Call} (hlive : progress.registry.live? friend = some call)
    (hrunning : call.state.isEstablished = true) (hvalid : payload.Valid config) :
    progress.handle config (.media friend payload) = progress.report (.frame friend payload) := by
  have hadmits : admits progress.registry config friend payload = true := by
    simp [admits, hlive, hrunning, Payload.validate_eq_ok_iff.mpr hvalid, Except.isOk,
      Except.toBool]
  rw [handle, framed, if_pos hadmits]

namespace Hub

variable {hub later : Hub} {place remote : NodeId} {friend asSeen : Friend} {link : Link}

/-- A frame that the network takes is the last item in the inbox of the node behind the friend,
and no other node changes. -/
theorem arrived_of_sendMedia {payload : Payload} (hlink : (hub.get place).link? friend = some link)
    (hremote : link.remote = some (remote, asSeen)) (hplace : remote < hub.nodes.length)
    (h : (node place).sendMedia friend payload hub = (.ok (), later)) :
    (later.get remote).inbox = (hub.get remote).inbox ++ [.media asSeen payload] ∧
      ∀ other, other ≠ remote → later.get other = hub.get other := by
  have hpush : hub.push place friend (fun asSeen => .media asSeen payload) = (.ok (), later) := by
    simp only [node] at h
    split at h
    · cases h
    · exact h
  have hroute : (hub.get place).route friend = .ok (some (remote, asSeen)) := by
    unfold push at hpush
    cases hroute : (hub.get place).route friend with
    | error cause =>
        rw [hroute] at hpush
        cases hpush
    | ok target =>
        simp only [Node.route, hlink] at hroute
        split at hroute
        · rw [← Except.ok.inj hroute, hremote]
        · cases hroute
  obtain rfl : hub.update remote (fun node => node.receive (.media asSeen payload)) = later := by
    simpa [push, hroute] using hpush
  refine ⟨?_, fun other hother => get_update_of_ne hother⟩
  rw [get_update_self hplace]
  rfl

end Hub

namespace Session

/-- Whatever frame one side may send, the other side accepts as it was sent, if both go by the
same sampling rates.  The frame arrives as the last item in the inbox of the node behind the
friend, cut to what it needs, and no other node changes; and whenever the other side handles
it in a running call, it reports this very frame and does nothing else. -/
theorem sent_frame_is_received {hub : Hub} {place remote : NodeId} {friend asSeen : Friend}
    {link : Link} (hlink : (hub.get place).link? friend = some link)
    (hremote : link.remote = some (remote, asSeen)) (hplace : remote < hub.nodes.length)
    {sender receiver : Session}
    (hrates : sender.config.samplingRates = receiver.config.samplingRates) {payload : Payload}
    (hsent : (sender.sendFrame (Hub.node place) hub friend payload).answer = .ok ()) :
    let later := (sender.sendFrame (Hub.node place) hub friend payload).network
    ∃ owned, payload.owned sender.config = .ok owned ∧ owned.kind = payload.kind ∧
      (later.get remote).inbox = (hub.get remote).inbox ++ [.media asSeen owned] ∧
      (∀ other, other ≠ remote → later.get other = hub.get other) ∧
      ∀ (progress : Progress) call, progress.registry.live? asSeen = some call →
        call.state.isEstablished = true →
        progress.handle receiver.config (.media asSeen owned) =
          progress.report (.frame asSeen owned) := by
  intro later
  obtain ⟨hpasses, after, hpush, rfl⟩ := of_sendFrame_ok hsent
  obtain ⟨harrived, helsewhere⟩ := Hub.arrived_of_sendMedia hlink hremote hplace hpush
  have hvalid : payload.cut.Valid receiver.config :=
    (Payload.validate_eq_ok_iff.mp hpasses.valid).cut.of_samplingRates hrates
  refine ⟨payload.cut, hpasses.owned_eq, payload.kind_cut, harrived, helsewhere, ?_⟩
  intro progress call hlive hrunning
  exact Progress.handle_media hlive hrunning hvalid

/-- The first of two nodes calls the second one, which goes by other intervals and knows it by
another number, and answers.  The two sessions after that, and the hub. -/
def conversation : Session × Session × Hub :=
  let hub := (Hub.fresh 2).connect 0 ⟨1⟩ 1 ⟨7⟩
  let patient : Config := { Config.standard with idleInterval := 500 }
  let called := (fresh .standard Config.standard_usable).perform (Hub.node 0) hub
    (.call ⟨1⟩ ⟨48, 0⟩)
  let heard := (fresh patient (by decide)).perform (Hub.node 1) called.network .iterate
  let answered := heard.session.perform (Hub.node 1) heard.network (.answer ⟨7⟩ ⟨48, 0⟩)
  let told := called.session.perform (Hub.node 0) answered.network .iterate
  (told.session, answered.session, told.network)

/-- The frame arrives without its spare sample, from the number by which the caller is known. -/
theorem click_is_received :
    let progress : Progress := ⟨conversation.2.1.registry, []⟩
    let short : Payload := .audio { AudioFrame.click with pcm := .replicate 20 0 }
    Payload.owned .standard (.audio .click) = .ok short ∧
      ((conversation.1.sendFrame (Hub.node 0) conversation.2.2 ⟨1⟩
        (.audio .click)).network.get 1).inbox = [.media ⟨7⟩ short] ∧
      (progress.handle conversation.2.1.config (.media ⟨7⟩ short)).events = [.frame ⟨7⟩ short] := by
  intro progress short
  have hlink : (conversation.2.2.get 0).link? ⟨1⟩ = some ⟨.udp, some (1, ⟨7⟩)⟩ := by decide
  have hrates : conversation.1.config.samplingRates = conversation.2.1.config.samplingRates := by
    decide
  have hsent : (conversation.1.sendFrame (Hub.node 0) conversation.2.2 ⟨1⟩
      (.audio .click)).answer = .ok () := by
    rfl
  obtain ⟨owned, howned, -, harrived, -, hreported⟩ :=
    sent_frame_is_received hlink rfl (by decide) hrates hsent
  have hcut : Payload.owned .standard (.audio .click) = .ok short := by rfl
  obtain rfl : short = owned := Except.ok.inj (hcut.symm.trans howned)
  have hinbox : (conversation.2.2.get 1).inbox = [] := by decide
  have hrunning : (progress.registry.live? ⟨7⟩).any (·.state.isEstablished) = true := by decide
  obtain ⟨call, hlive, hestablished⟩ := (Option.any_eq_true _ _).mp hrunning
  refine ⟨hcut, ?_, ?_⟩
  · rw [harrived, hinbox]
    rfl
  · rw [hreported progress call hlive hestablished]
    rfl

end Session

end PeerCalls
