/-
# Nachos.Network.Packet -- the two headers (`machine/network.h`, `network/post.h`)

A message is put into a buffer behind a `MailHeader`, and the buffer goes out behind a
`PacketHeader`, in a packet of `MaxWireSize` bytes.  On the other side the two are taken off
again.  `mailIn` is what the other side reads; `mailIn_concatenate` and `contents_packet` say
that it is what was put in.

A buffer is a memory: what `new` finds there is kept where nothing is written.
-/
import Nachos.Lib.Bytes

namespace Nachos.Network

open Nachos.Lib.Bytes

set_option autoImplicit false

structure PacketHeader where
  toId : Word
  fromId : Word
  length : Word
  deriving DecidableEq, Repr

structure MailHeader where
  toId : Word
  fromId : Word
  length : Word
  deriving DecidableEq, Repr

/-- `sizeof(PacketHeader)` and `sizeof(MailHeader)`. -/
def headerSize : Nat := 12

def maxWireSize : Nat := 64

def maxPacketSize : Nat := maxWireSize - headerSize

def maxMailSize : Nat := maxPacketSize - headerSize

structure Mail where
  pktHdr : PacketHeader
  mailHdr : MailHeader
  /-- The `mailHdr.length` bytes of the payload. -/
  data : List Byte
  deriving DecidableEq, Repr

/-! ## Memory -/

def PacketHeader.bytes (h : PacketHeader) : List Byte :=
  [h.toId, h.fromId, h.length].flatMap (bytesOf · 4)

def MailHeader.bytes (h : MailHeader) : List Byte :=
  [h.toId, h.fromId, h.length].flatMap (bytesOf · 4)

/-- `*(PacketHeader *)buffer`. -/
def PacketHeader.read (buffer : Nat → Byte) : PacketHeader :=
  ⟨wordAt buffer 0, wordAt buffer 4, wordAt buffer 8⟩

/-- `*(MailHeader *)buffer`. -/
def MailHeader.read (buffer : Nat → Byte) : MailHeader :=
  ⟨wordAt buffer 0, wordAt buffer 4, wordAt buffer 8⟩

/-- `bcopy(source, target, n)`. -/
def bcopy (source target : Nat → Byte) (n : Nat) : Nat → Byte :=
  splice target 0 (block source 0 n)

/-- `buffer + sizeof(MailHeader)`. -/
def payload (buffer : Nat → Byte) : Nat → Byte := fun i => buffer (headerSize + i)

/-- A header, and `n` bytes of data behind it. -/
def concatenate (fresh : Nat → Byte) (header : List Byte) (data : Nat → Byte) (n : Nat) :
    Nat → Byte :=
  splice (splice fresh 0 header) headerSize (block data 0 n)

/-- `Mail::Mail`, after its `ASSERT`. -/
def Mail.create (pktH : PacketHeader) (mailH : MailHeader) (msgData : Nat → Byte) : Mail :=
  ⟨pktH, mailH, block msgData 0 mailH.length.toNat⟩

/-- What is in a buffer that came with the header `pktHdr`. -/
def mailIn (pktHdr : PacketHeader) (buffer : Nat → Byte) : Mail :=
  .create pktHdr (.read buffer) (payload buffer)

/-- The packet `Network::Send` gives to the socket. -/
def packet (fresh : Nat → Byte) (hdr : PacketHeader) (data : Nat → Byte) : List Byte :=
  block (concatenate fresh hdr.bytes data hdr.length.toNat) 0 maxWireSize

/-- `ReadFromSocket`; all of the buffer is written. -/
def readFromSocket (packet : List Byte) : Nat → Byte := fun i => packet.getD i 0

/-- What is in a packet. -/
def contents (packet : List Byte) : Mail :=
  mailIn (.read (readFromSocket packet)) (payload (readFromSocket packet))

/-! ## Round trips -/

section RoundTrip

variable {buffer buffer' fresh data : Nat → Byte} {n : Nat} {ws : List Word} {w : Word} {k : Nat}

/-- The words of the header are where they were put. -/
theorem wordAt_concatenate (short : 4 * k + 4 ≤ headerSize) (found : ws[k]? = some w) :
    wordAt (concatenate fresh (ws.flatMap (bytesOf · 4)) data n) (4 * k) = w := by
  have header := wordAt_splice_flatMap fresh 0 ws found
  rw [Nat.zero_add] at header
  rw [← header]
  apply wordAt_congr
  intro j inside
  exact splice_outside _ (.inl (by omega))

theorem packetHeader_read_concatenate (h : PacketHeader) :
    PacketHeader.read (concatenate fresh h.bytes data n) = h := by
  have first := @wordAt_concatenate fresh data n [h.toId, h.fromId, h.length] h.toId 0
    (by decide) rfl
  have second := @wordAt_concatenate fresh data n [h.toId, h.fromId, h.length] h.fromId 1
    (by decide) rfl
  have third := @wordAt_concatenate fresh data n [h.toId, h.fromId, h.length] h.length 2
    (by decide) rfl
  unfold PacketHeader.read PacketHeader.bytes
  rw [first, second, third]

theorem mailHeader_read_concatenate (h : MailHeader) :
    MailHeader.read (concatenate fresh h.bytes data n) = h := by
  have first := @wordAt_concatenate fresh data n [h.toId, h.fromId, h.length] h.toId 0
    (by decide) rfl
  have second := @wordAt_concatenate fresh data n [h.toId, h.fromId, h.length] h.fromId 1
    (by decide) rfl
  have third := @wordAt_concatenate fresh data n [h.toId, h.fromId, h.length] h.length 2
    (by decide) rfl
  unfold MailHeader.read MailHeader.bytes
  rw [first, second, third]

/-- And so are the data. -/
theorem payload_concatenate {header : List Byte} {i : Nat} (inside : i < n) :
    payload (concatenate fresh header data n) i = data i := by
  have copied := @splice_block_at Byte (splice fresh 0 header) data headerSize 0 n (headerSize + i)
    (by omega) (by omega)
  rw [payload, concatenate, copied]
  congr 1
  omega

theorem bcopy_apply {source target : Nat → Byte} {i : Nat} (inside : i < n) :
    bcopy source target n i = source i := by
  rw [bcopy, splice_block_at target source (by omega) (by omega)]
  congr 1
  omega

/-- **What `PostOffice::Send` puts together is read back.** -/
theorem mailIn_concatenate (pktHdr : PacketHeader) (mailHdr : MailHeader)
    (data fresh : Nat → Byte) :
    mailIn pktHdr (concatenate fresh mailHdr.bytes data mailHdr.length.toNat) =
      .create pktHdr mailHdr data := by
  unfold mailIn Mail.create
  rw [mailHeader_read_concatenate]
  congr 1
  apply block_congr
  intro i inside
  rw [Nat.zero_add]
  exact payload_concatenate inside

/-- Reading looks at the header and at the bytes it counts. -/
theorem mailIn_congr (pktHdr : PacketHeader)
    (same : ∀ i < headerSize + (mailIn pktHdr buffer).mailHdr.length.toNat, buffer' i = buffer i) :
    mailIn pktHdr buffer' = mailIn pktHdr buffer := by
  have word (k : Nat) (short : 4 * k + 4 ≤ headerSize) : wordAt buffer' (4 * k) = wordAt buffer
      (4 * k) := by
    apply wordAt_congr
    intro j inside
    exact same _ (by omega)
  have header : MailHeader.read buffer' = MailHeader.read buffer := by
    unfold MailHeader.read
    rw [word 0 (by decide), word 1 (by decide), word 2 (by decide)]
  unfold mailIn Mail.create
  rw [header]
  congr 1
  apply block_congr
  intro i inside
  rw [Nat.zero_add]
  exact same _ (by
    show headerSize + i < headerSize + (MailHeader.read buffer).length.toNat
    omega)

end RoundTrip

/-! ## Legal mail -/

/-- What the `ASSERT`s of `PostOffice::Send` let through, with the length `Send` fills in. -/
structure Mail.Legal (numBoxes : Int) (m : Mail) : Prop where
  size : m.mailHdr.length.toNat ≤ maxMailSize
  low : 0 ≤ m.mailHdr.toId.toInt
  high : m.mailHdr.toId.toInt < numBoxes
  length : m.pktHdr.length.toNat = headerSize + m.mailHdr.length.toNat

section Legal

variable {numBoxes : Int} {m : Mail} {buffer : Nat → Byte}

theorem Mail.Legal.fits (legal : m.Legal numBoxes) : m.pktHdr.length.toNat ≤ maxPacketSize := by
  have size := legal.size
  rw [legal.length]
  unfold maxMailSize at size
  have : headerSize ≤ maxPacketSize := by decide
  omega

theorem Mail.Legal.pos (legal : m.Legal numBoxes) : 0 < m.pktHdr.length.toNat := by
  rw [legal.length]
  exact Nat.lt_of_lt_of_le (by decide) (Nat.le_add_right _ _)

/-- A copy of as many bytes as the packet header says has the same mail in it. -/
theorem Mail.Legal.copied {pktHdr : PacketHeader} {buffer' : Nat → Byte}
    (legal : (mailIn pktHdr buffer).Legal numBoxes)
    (same : ∀ i < pktHdr.length.toNat, buffer' i = buffer i) :
    mailIn pktHdr buffer' = mailIn pktHdr buffer := by
  apply mailIn_congr
  intro i inside
  apply same
  have length := legal.length
  change pktHdr.length.toNat = _ at length
  omega

/-- **What `Network::Send` puts on the wire is read back**, header and all. -/
theorem contents_packet {hdr : PacketHeader} (legal : (mailIn hdr buffer).Legal numBoxes)
    (fresh : Nat → Byte) :
    PacketHeader.read (readFromSocket (packet fresh hdr buffer)) = hdr ∧
      (∀ i < hdr.length.toNat, payload (readFromSocket (packet fresh hdr buffer)) i = buffer i) ∧
      contents (packet fresh hdr buffer) = mailIn hdr buffer := by
  have wire : ∀ i < maxWireSize, readFromSocket (packet fresh hdr buffer) i =
      concatenate fresh hdr.bytes buffer hdr.length.toNat i := by
    intro i inside
    rw [readFromSocket, packet, List.getD, getElem?_block _ inside, Option.getD_some, Nat.zero_add]
  have word (k : Nat) (short : 4 * k + 4 ≤ headerSize) :
      wordAt (readFromSocket (packet fresh hdr buffer)) (4 * k) =
        wordAt (concatenate fresh hdr.bytes buffer hdr.length.toNat) (4 * k) := by
    apply wordAt_congr
    intro j inside
    have : headerSize ≤ maxWireSize := by decide
    exact wire _ (by omega)
  have header : PacketHeader.read (readFromSocket (packet fresh hdr buffer)) = hdr := by
    conv_rhs => rw [← @packetHeader_read_concatenate fresh buffer hdr.length.toNat hdr]
    unfold PacketHeader.read
    rw [word 0 (by decide), word 1 (by decide), word 2 (by decide)]
  have data : ∀ i < hdr.length.toNat,
      payload (readFromSocket (packet fresh hdr buffer)) i = buffer i := by
    intro i inside
    have fits := legal.fits
    change hdr.length.toNat ≤ maxPacketSize at fits
    have room : headerSize + maxPacketSize = maxWireSize := by decide
    show readFromSocket (packet fresh hdr buffer) (headerSize + i) = buffer i
    rw [wire _ (by omega)]
    exact payload_concatenate inside
  refine ⟨header, data, ?_⟩
  unfold contents
  rw [header]
  exact legal.copied data

end Legal

end Nachos.Network
