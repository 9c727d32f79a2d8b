import NamedContent.Config.Basic
import NamedContent.Stream.Reader
import NamedContent.Node.Publishing

/-! # Clients

A client is what an application works with: a face on the forwarder, the key under which it
publishes, the way it checks signatures, and its configuration.

* `Client`: the type, opened by `Client.connect`
* `Client.reader`: reading through the client's face
* `Client.flowLimits`: the limits of its flow controllers
-/

namespace NamedContent

/-- An application's context. -/
structure Client where
  /-- The face for all calls. -/
  face : OwnerId
  /-- The publishing key. -/
  signer : Signer
  /-- How signatures are checked. -/
  verifier : Verifier
  /-- The tunables. -/
  config : Config
  /-- How many calls a read makes before it gives up. -/
  readLimit : Nat

namespace Client

/-- A client on a new face that retries as configured. -/
def connect (signer : Signer) (config : Config) (readLimit : Nat) :
    Action Node ConfigError Client := do
  Action.ofExcept config.validate
  let face ← Node.openFace config.retry
  return ⟨face, signer, .ed25519, config, readLimit⟩

/-- Reading through the client's face. -/
def reader (c : Client) : Stream.Reader Node where
  fetch i timeout := Node.get c.face i (some timeout.toNat)
  verifier := c.verifier
  config := c.config
  limit := c.readLimit

/-- The limits of the client's flow controllers. -/
def flowLimits (c : Client) : FlowLimits :=
  ⟨c.config.bufferCapacity.toNat, c.config.maxHeldInterests.toNat⟩

end Client

end NamedContent
