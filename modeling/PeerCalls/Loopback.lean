import PeerCalls.Network

/-!
# Networks in memory

A hub holds several networks, its nodes.  Linked nodes deliver what one sends
into the inbox of the other, at once and in order; what is sent to a friend
with no node behind it is swallowed.  `Hub.node` is one node seen as the network
under a session, with the whole hub as its state, so a run of several sessions
threads one hub through all of them.
-/

namespace PeerCalls

/-- The place of a node in its hub. -/
abbrev NodeId := Nat

/-- A friend as a node knows it. -/
structure Link where
  status : ConnectionStatus
  /-- The node behind the friend and the number it knows us by. -/
  remote : Option (NodeId × Friend)
  deriving DecidableEq

/-- One network of a hub. -/
structure Node where
  links : List (Friend × Link)
  /-- What was received and not polled yet, oldest first. -/
  inbox : List Inbound
  /-- The streams whose link is not stable. -/
  unstable : List (Friend × MediaKind)
  /-- The friends whose codecs are prepared. -/
  openMedia : List Friend
  /-- Whether frames are refused. -/
  refusesMedia : Bool
  /-- Whether a session has claimed the node. -/
  attached : Bool
  deriving DecidableEq

namespace Node

/-- A node without friends. -/
def fresh : Node := ⟨[], [], [], [], false, false⟩

def link? (node : Node) (friend : Friend) : Option Link := node.links.lookup friend

def knows (node : Node) (friend : Friend) : Bool := (node.link? friend).isSome

/-- How the friend is reached; an unknown friend is offline. -/
def status (node : Node) (friend : Friend) : ConnectionStatus :=
  match node.link? friend with
  | some link => link.status
  | none => .offline

/-- Enters a link, over the one the friend had. -/
def setLink (node : Node) (friend : Friend) (link : Link) : Node :=
  { node with links := (friend, link) :: node.links.filter fun entry => entry.1 ≠ friend }

/-- Adds a friend with no node behind it. -/
def addFriend (node : Node) (friend : Friend) (status : ConnectionStatus) : Node :=
  node.setLink friend ⟨status, none⟩

/-- Sets how a friend is reached; an unknown friend stays unknown. -/
def setStatus (node : Node) (friend : Friend) (status : ConnectionStatus) : Node :=
  match node.link? friend with
  | some link => node.setLink friend { link with status }
  | none => node

def removeFriend (node : Node) (friend : Friend) : Node :=
  { node with links := node.links.filter fun entry => entry.1 ≠ friend }

def isStable (node : Node) (friend : Friend) (kind : MediaKind) : Bool :=
  !node.unstable.contains (friend, kind)

def setStable (node : Node) (friend : Friend) (kind : MediaKind) (stable : Bool) : Node :=
  let others := node.unstable.filter fun entry => entry ≠ (friend, kind)
  { node with unstable := if stable then others else (friend, kind) :: others }

/-- Puts an item at the end of the inbox. -/
def receive (node : Node) (item : Inbound) : Node :=
  { node with inbox := node.inbox ++ [item] }

def hasOpenMedia (node : Node) (friend : Friend) : Bool := node.openMedia.contains friend

/-- Releases the codecs of a friend. -/
def closeCodecs (node : Node) (friend : Friend) : Node :=
  { node with openMedia := node.openMedia.filter fun other => other ≠ friend }

/-- Prepares the codecs of a friend. -/
def openCodecs (node : Node) (friend : Friend) : Node :=
  { node with openMedia := friend :: (node.closeCodecs friend).openMedia }

/-- Where a push to the friend goes: to a node, or nowhere. -/
def route (node : Node) (friend : Friend) : Except NetworkError (Option (NodeId × Friend)) :=
  match node.link? friend with
  | none => .error (.unknownFriend friend)
  | some link =>
    if link.status.isConnected then .ok link.remote else .error (.notConnected friend)

end Node

/-- Networks in memory, by their place. -/
structure Hub where
  nodes : List Node
  deriving DecidableEq

namespace Hub

/-- A hub of nodes without friends. -/
def fresh (count : Nat) : Hub := ⟨List.replicate count .fresh⟩

/-- The node at a place; a place that the hub does not have holds a node without friends. -/
def get (hub : Hub) (place : NodeId) : Node := hub.nodes.getD place .fresh

/-- Changes the node at a place. -/
def update (hub : Hub) (place : NodeId) (change : Node → Node) : Hub :=
  ⟨hub.nodes.modify place change⟩

/-- Befriends two nodes: `first` knows `second` as `secondNumber`, and the other way round. -/
def connect (hub : Hub) (first : NodeId) (secondNumber : Friend) (second : NodeId)
    (firstNumber : Friend) : Hub :=
  let linked := hub.update first fun node =>
    node.setLink secondNumber ⟨.udp, some (second, firstNumber)⟩
  linked.update second fun node => node.setLink firstNumber ⟨.udp, some (first, secondNumber)⟩

/-- Delivers an item to whoever is behind the friend; `item` gets the number by
which the receiver knows the sender. -/
def push (hub : Hub) (place : NodeId) (friend : Friend) (item : Friend → Inbound) :
    Except NetworkError Unit × Hub :=
  match (hub.get place).route friend with
  | .error error => (.error error, hub)
  | .ok none => (.ok (), hub)
  | .ok (some (remote, asSeen)) =>
    (.ok (), hub.update remote fun node => node.receive (item asSeen))

/-- Takes the oldest item from the inbox of a node. -/
def poll (hub : Hub) (place : NodeId) : Option Inbound × Hub :=
  match (hub.get place).inbox with
  | [] => (none, hub)
  | item :: later => (some item, hub.update place fun node => { node with inbox := later })

/-- One node as the network under a session. -/
def node (place : NodeId) : Network Hub where
  knows hub friend := (hub.get place).knows friend
  status hub friend := (hub.get place).status friend
  sendSignal friend signal hub := hub.push place friend fun asSeen => .signal asSeen signal
  sendMedia friend payload hub :=
    if (hub.get place).refusesMedia then (.error (.rejected "media failure injected"), hub)
    else hub.push place friend fun asSeen => .media asSeen payload
  poll hub := hub.poll place
  linkStable friend kind _ hub := ((hub.get place).isStable friend kind, hub)
  openMedia friend _ hub := (.ok (), hub.update place fun node => node.openCodecs friend)
  closeMedia friend hub := hub.update place fun node => node.closeCodecs friend
  attach hub :=
    (!(hub.get place).attached, hub.update place fun node => { node with attached := true })
  detach hub := hub.update place fun node => { node with attached := false }

end Hub

end PeerCalls
