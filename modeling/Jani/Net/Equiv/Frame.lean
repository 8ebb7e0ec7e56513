import Jani.Lib.Layout
import Jani.Net.Frame
import Mathlib.Data.Fin.VecNotation
import Mathlib.Tactic.FinCases

/-!
# Round trip and error detection of UDP frames

The encoder writes a plain concatenation of three headers, the payload and padding
(`encodeUdpFrame_ok`).  On such a frame the decoder comes down to its check of the datagram
(`decodeUdpFrame_frame`), which the datagram of the encoder passes.  Both checksums are sums in
ones' complement, so replacing one word of the IPv4 header or of the datagram is noticed, unless it
exchanges `0x0000` and `0xffff`; the checksum field of the datagram may not even do that, as zero
is refused there.
-/

namespace Jani

/-! ### Replacing a part of a buffer -/

theorem writeAt_mid {a x y r : List UInt8} {n : Nat} (ha : a.length = n)
    (hxy : y.length = x.length) : writeAt (a ++ (x ++ r)) n y = a ++ (y ++ r) := by
  unfold writeAt
  rw [List.take_left' ha, hxy, ← List.append_assoc a x r,
    List.drop_left' (by rw [List.length_append, ha]), List.append_assoc]

theorem ofFn_four (f : Fin 4 → UInt8) : List.ofFn f = [f 0, f 1, f 2, f 3] := by
  simp [List.ofFn_succ]

theorem ofFn_six (f : Fin 6 → UInt8) : List.ofFn f = [f 0, f 1, f 2, f 3, f 4, f 5] := by
  simp [List.ofFn_succ]

/-! ### Headers -/

def ethernetBytes (header : EthernetHeader) : List UInt8 :=
  List.ofFn header.destination ++ (List.ofFn header.source ++ be16 header.ethertype)

@[simp]
theorem length_ethernetBytes (header : EthernetHeader) : (ethernetBytes header).length = 14 := by
  simp [ethernetBytes]

theorem ethernetEncodeHeader_ok {frame : List UInt8} {header : EthernetHeader}
    (hlength : frame.length = 14) (htype : ¬ header.ethertype < 0x0600) :
    ethernetEncodeHeader frame header = .ok (ethernetBytes header) := by
  unfold ethernetEncodeHeader
  rw [if_neg (by rw [hlength]; decide), if_neg htype]
  have h1 : writeAt frame 0 (List.ofFn header.destination) =
      List.ofFn header.destination ++ frame.drop 6 := by simp [writeAt]
  have h2 : frame.drop 6 = (frame.drop 6).take 6 ++ (frame.drop 12 ++ []) := by
    have hdrop : frame.drop 12 = (frame.drop 6).drop 6 := by rw [List.drop_drop]
    rw [List.append_nil, hdrop, List.take_append_drop]
  dsimp only
  rw [h1, h2, writeAt_mid (by simp) (by simp [hlength]), ← List.append_assoc,
    writeAt_mid (by simp) (by simp [hlength]), List.append_nil, List.append_assoc]
  rfl

/-- The bytes of an IPv4 header with the given checksum. -/
def ipv4Bytes (header : Ipv4Header) (checksum : UInt16) : List UInt8 :=
  [0x45, 0] ++ (be16 (UInt16.ofNat (20 + header.payloadLength)) ++ (be16 header.identification ++
    (be16 0x4000 ++ ([header.ttl, header.protocol] ++ (be16 checksum ++
      (List.ofFn header.source ++ List.ofFn header.destination))))))

@[simp]
theorem length_ipv4Bytes (header : Ipv4Header) (checksum : UInt16) :
    (ipv4Bytes header checksum).length = 20 := by
  simp [ipv4Bytes]

theorem sumWords_ipv4Bytes (header : Ipv4Header) (checksum : UInt16) :
    sumWords (ipv4Bytes header checksum) = sumWords (ipv4Bytes header 0) + checksum.toNat := by
  have hwords : ∀ c : UInt16, sumWords (ipv4Bytes header c) =
      sumWords ([0x45, 0] ++ (be16 (UInt16.ofNat (20 + header.payloadLength)) ++
        (be16 header.identification ++ (be16 0x4000 ++ [header.ttl, header.protocol])))) +
      (c.toNat + sumWords (List.ofFn header.source ++ List.ofFn header.destination)) := by
    intro c
    have hsplit : ipv4Bytes header c = ([0x45, 0] ++
        (be16 (UInt16.ofNat (20 + header.payloadLength)) ++ (be16 header.identification ++
          (be16 0x4000 ++ [header.ttl, header.protocol])))) ++
        (be16 c ++ (List.ofFn header.source ++ List.ofFn header.destination)) := by
      simp only [ipv4Bytes, List.append_assoc]
    rw [hsplit, sumWords_append _ (by simp), sumWords_be16_append c]
  rw [hwords, hwords 0]
  simp only [UInt16.toNat_zero]
  omega

theorem toNat_complement {n : Nat} (h : n ≤ 65535) : (~~~(UInt16.ofNat n)).toNat = 65535 - n := by
  have hn : (UInt16.ofNat n).toNat = n := UInt16.toNat_ofNat_of_lt' (by norm_num; omega)
  rw [UInt16.toNat_not, hn]
  norm_num

theorem toNat_computeHeaderChecksum (header : List UInt8) :
    (computeHeaderChecksum header).toNat = 65535 - foldCarry (sumWords header) :=
  toNat_complement (foldCarry_spec _).1

/-- The header the encoder writes. -/
def ipv4Encoded (header : Ipv4Header) : List UInt8 :=
  ipv4Bytes header (computeHeaderChecksum (ipv4Bytes header 0))

theorem ipv4EncodeHeader_ok {bytes : List UInt8} {header : Ipv4Header}
    (hlength : 20 ≤ bytes.length) (hpayload : header.payloadLength ≤ ipv4MaximumPayloadSize)
    (httl : header.ttl ≠ 0) :
    ipv4EncodeHeader bytes header = .ok (ipv4Encoded header ++ bytes.drop 20) := by
  unfold ipv4EncodeHeader
  rw [if_neg (by rw [ipv4HeaderSize]; omega), if_neg (Nat.not_lt.mpr hpayload), if_neg httl]
  have hzero : writeAt bytes 0 (List.replicate ipv4HeaderSize 0) =
      List.replicate 20 0 ++ bytes.drop 20 := by simp [writeAt, ipv4HeaderSize]
  have hfields : writeAt (writeAt (writeAt (writeAt (writeAt (writeAt (writeAt (writeAt
      (List.replicate 20 0 ++ bytes.drop 20) 0 [0x45]) 2
      (be16 (UInt16.ofNat (ipv4HeaderSize + header.payloadLength)))) 4 (be16 header.identification))
      6 (be16 0x4000)) 8 [header.ttl]) 9 [header.protocol]) 12 (List.ofFn header.source)) 16
      (List.ofFn header.destination) = ipv4Bytes header 0 ++ bytes.drop 20 := by
    rw [ipv4Bytes, ofFn_four, ofFn_four]
    rfl
  have hchecksum : ∀ c, writeAt (ipv4Bytes header 0 ++ bytes.drop 20) 10 (be16 c) =
      ipv4Bytes header c ++ bytes.drop 20 := by
    intro c
    rw [ipv4Bytes, ipv4Bytes, ofFn_four, ofFn_four]
    rfl
  dsimp only
  rw [hzero, hfields, List.take_left' (by rw [length_ipv4Bytes, ipv4HeaderSize]), hchecksum]
  rfl

theorem headerChecksumValid_encoded (header : Ipv4Header) :
    headerChecksumValid (ipv4Encoded header) = true := by
  unfold headerChecksumValid ipv4Encoded
  rw [length_ipv4Bytes, if_neg (by decide), sumWords_ipv4Bytes, toNat_computeHeaderChecksum,
    foldCarry_add_complement]
  rfl

/-- The bytes of a datagram with the given checksum. -/
def udpBytes (header : UdpEncodeHeader) (checksum : UInt16) (payload : List UInt8) : List UInt8 :=
  be16 header.sourcePort ++ (be16 header.destinationPort ++
    (be16 (UInt16.ofNat (8 + payload.length)) ++ (be16 checksum ++ payload)))

@[simp]
theorem length_udpBytes (header : UdpEncodeHeader) (checksum : UInt16) (payload : List UInt8) :
    (udpBytes header checksum payload).length = 8 + payload.length := by
  simp [udpBytes]
  omega

/-- The sum does not wrap around in the 32 bits of the source. -/
theorem udpSum_lt {bytes : List UInt8} (h : bytes.length ≤ udpMaximumDatagramSize)
    (source destination : Ipv4Address) : udpSum bytes source destination < 2 ^ 32 := by
  have hsource := sumWords_le (List.ofFn source)
  have hdestination := sumWords_le (List.ofFn destination)
  have hbytes := sumWords_le bytes
  rw [List.length_ofFn] at hsource hdestination
  unfold udpMaximumDatagramSize at h
  unfold udpSum
  omega

theorem udpSum_udpBytes (header : UdpEncodeHeader) (checksum : UInt16) (payload : List UInt8)
    (source destination : Ipv4Address) :
    udpSum (udpBytes header checksum payload) source destination =
      udpSum (udpBytes header 0 payload) source destination + checksum.toNat := by
  have hwords : ∀ c : UInt16, sumWords (udpBytes header c payload) =
      sumWords (be16 header.sourcePort ++ (be16 header.destinationPort ++
        be16 (UInt16.ofNat (8 + payload.length)))) + (c.toNat + sumWords payload) := by
    intro c
    have hsplit : udpBytes header c payload = (be16 header.sourcePort ++
        (be16 header.destinationPort ++ be16 (UInt16.ofNat (8 + payload.length)))) ++
        (be16 c ++ payload) := by
      simp only [udpBytes, List.append_assoc]
    rw [hsplit, sumWords_append _ (by simp), sumWords_be16_append c]
  unfold udpSum
  rw [hwords, hwords 0, length_udpBytes, length_udpBytes]
  simp only [UInt16.toNat_zero]
  omega

/-- The checksum the encoder writes. -/
def udpChecksum (header : UdpEncodeHeader) (payload : List UInt8) : UInt16 :=
  let checksum : UInt16 := ~~~(UInt16.ofNat (foldCarry
    (udpSum (udpBytes header 0 payload) header.source header.destination)))
  if checksum = 0 then 0xffff else checksum

theorem udpChecksum_ne_zero (header : UdpEncodeHeader) (payload : List UInt8) :
    udpChecksum header payload ≠ 0 := by
  unfold udpChecksum
  dsimp only
  split_ifs with h
  · decide
  · exact h

def udpEncoded (header : UdpEncodeHeader) (payload : List UInt8) : List UInt8 :=
  udpBytes header (udpChecksum header payload) payload

variable {payload : List UInt8} {header : UdpEncodeHeader}

theorem udpEncodeHeader_ok {bytes : List UInt8} (hlength : bytes.length = 8 + payload.length)
    (hdrop : bytes.drop 8 = payload) (hle : bytes.length ≤ udpMaximumDatagramSize) :
    udpEncodeHeader bytes header = .ok (udpEncoded header payload) := by
  unfold udpEncodeHeader
  rw [if_neg (by rw [hlength, udpHeaderSize]; omega), if_neg (Nat.not_lt.mpr hle)]
  have hzero : writeAt bytes 0 (List.replicate udpHeaderSize 0) =
      List.replicate 8 0 ++ payload := by
    simp [writeAt, udpHeaderSize, hdrop]
  dsimp only
  rw [hzero]
  have hports : writeAt (writeAt (List.replicate 8 0 ++ payload) 0 (be16 header.sourcePort)) 2
      (be16 header.destinationPort) =
        be16 header.sourcePort ++ (be16 header.destinationPort ++ ([0, 0, 0, 0] ++ payload)) := rfl
  have hlength' : (be16 header.sourcePort ++ (be16 header.destinationPort ++
      ([0, 0, 0, 0] ++ payload))).length = 8 + payload.length := by
    simp
    omega
  rw [hports, hlength']
  have hbytes : writeAt (be16 header.sourcePort ++ (be16 header.destinationPort ++
      ([0, 0, 0, 0] ++ payload))) 4 (be16 (UInt16.ofNat (8 + payload.length))) =
        udpBytes header 0 payload := rfl
  rw [hbytes]
  rfl

theorem foldCarry_udpEncoded (header : UdpEncodeHeader) (payload : List UInt8) :
    foldCarry (udpSum (udpEncoded header payload) header.source header.destination) = 65535 := by
  unfold udpEncoded
  rw [udpSum_udpBytes]
  set sum := udpSum (udpBytes header 0 payload) header.source header.destination with hsum
  have hcomplement : (~~~(UInt16.ofNat (foldCarry sum))).toNat = 65535 - foldCarry sum :=
    toNat_complement (foldCarry_spec _).1
  have hfold := foldCarry_add_complement sum
  unfold udpChecksum
  dsimp only
  rw [← hsum]
  split_ifs with h
  · -- the complement is zero, so the sum is a multiple of `65535` already
    rw [h] at hcomplement
    have hzero : 65535 - foldCarry sum = 0 := hcomplement.symm
    rw [hzero, Nat.add_zero, foldCarry_eq_iff] at hfold
    rw [foldCarry_eq_iff]
    have hmax : (0xffff : UInt16).toNat = 65535 := rfl
    rw [hmax]
    exact ⟨by omega, by omega⟩
  · rw [hcomplement]
    exact hfold

theorem udpChecksum_at (header : UdpEncodeHeader) (payload : List UInt8) :
    be16At (udpEncoded header payload) 6 = udpChecksum header payload := by
  rw [udpEncoded, udpBytes, ← List.append_assoc, ← List.append_assoc]
  exact be16At_append rfl _ _

theorem udpDecodeHeader_encoded (hle : payload.length ≤ maximumPayloadSize) :
    udpDecodeHeader (udpEncoded header payload) = .ok ⟨header.sourcePort, header.destinationPort,
      8 + payload.length, udpChecksum header payload⟩ := by
  have hlt : 8 + payload.length < 65536 := by
    have hmax : maximumPayloadSize = 1472 := rfl
    omega
  have hlength : (be16At (udpEncoded header payload) 4).toNat = 8 + payload.length := by
    have hword : be16At (udpEncoded header payload) 4 = UInt16.ofNat (8 + payload.length) := by
      rw [udpEncoded, udpBytes, ← List.append_assoc]
      exact be16At_append rfl _ _
    rw [hword]
    exact UInt16.toNat_ofNat_of_lt' (by norm_num; omega)
  have hsize : (udpEncoded header payload).length = 8 + payload.length := length_udpBytes _ _ _
  unfold udpDecodeHeader
  dsimp only
  rw [hlength, hsize, if_neg (by rw [udpHeaderSize]; omega), if_neg (by rw [udpHeaderSize]; omega)]
  have h0 : be16At (udpEncoded header payload) 0 = header.sourcePort :=
    be16At_append (a := []) rfl _ _
  have h2 : be16At (udpEncoded header payload) 2 = header.destinationPort :=
    be16At_append rfl _ _
  rw [h0, h2, udpChecksum_at]

theorem udpChecksumValid_encoded (hle : payload.length ≤ maximumPayloadSize) :
    udpChecksumValid (udpEncoded header payload) header.source header.destination = true := by
  unfold udpChecksumValid
  rw [udpDecodeHeader_encoded hle]
  dsimp only
  rw [udpChecksum_at, if_neg (udpChecksum_ne_zero header payload), foldCarry_udpEncoded]
  rfl

/-! ### The frame the encoder writes -/

def FrameFields.ethernet (fields : FrameFields) : EthernetHeader :=
  ⟨fields.destinationMac, fields.sourceMac, 0x0800⟩

def FrameFields.ipv4 (fields : FrameFields) (payloadLength : Nat) : Ipv4Header :=
  ⟨fields.sourceIp, fields.destinationIp, 17, payloadLength, fields.identification, fields.ttl⟩

def FrameFields.udp (fields : FrameFields) : UdpEncodeHeader :=
  ⟨fields.sourceIp, fields.destinationIp, fields.sourcePort, fields.destinationPort⟩

def framePadding (payload : List UInt8) : List UInt8 :=
  List.replicate (minimumFrameSize - (frameHeaderSize + payload.length)) 0

/-- A frame around the datagram `datagram`. -/
def frameAround (fields : FrameFields) (datagram padding : List UInt8) : List UInt8 :=
  ethernetBytes fields.ethernet ++ (ipv4Encoded (fields.ipv4 datagram.length) ++
    (datagram ++ padding))

def frameBytes (fields : FrameFields) (payload : List UInt8) : List UInt8 :=
  frameAround fields (udpEncoded fields.udp payload) (framePadding payload)

@[simp]
theorem length_udpEncoded (header : UdpEncodeHeader) (payload : List UInt8) :
    (udpEncoded header payload).length = 8 + payload.length := length_udpBytes _ _ _

@[simp]
theorem length_ipv4Encoded (header : Ipv4Header) : (ipv4Encoded header).length = 20 :=
  length_ipv4Bytes _ _

theorem length_frameBytes (fields : FrameFields) (payload : List UInt8) :
    (frameBytes fields payload).length =
      max minimumFrameSize (frameHeaderSize + payload.length) := by
  have hsize : frameHeaderSize = 42 := rfl
  simp only [frameBytes, frameAround, List.length_append, length_ethernetBytes, length_ipv4Encoded,
    length_udpEncoded, framePadding, List.length_replicate, hsize]
  omega

theorem exists_split {l : List UInt8} {n : Nat} (h : n ≤ l.length) :
    ∃ a r, l = a ++ r ∧ a.length = n ∧ r.length = l.length - n :=
  ⟨l.take n, l.drop n, (List.take_append_drop n l).symm, List.length_take_of_le h,
    List.length_drop⟩

variable {fields : FrameFields}

/-- The part of a buffer between two positions. -/
theorem cut_mid {x y rest : List UInt8} {n m : Nat} (hx : x.length = n) (hy : n + y.length = m) :
    ((x ++ (y ++ rest)).take m).drop n = y := by
  rw [← List.append_assoc, List.take_left' (by rw [List.length_append, hx, hy]),
    List.drop_left' hx]

/-- The innermost layer: the payload goes behind the header of the datagram. -/
theorem udpEncodeHeader_layer {c : List UInt8} (hpayload : payload.length ≤ maximumPayloadSize)
    (hc : c.length = 8 + payload.length) : udpEncodeHeader (writeAt c udpHeaderSize payload)
      ⟨fields.sourceIp, fields.destinationIp, fields.sourcePort, fields.destinationPort⟩ =
        .ok (udpEncoded fields.udp payload) := by
  have hmax : maximumPayloadSize = 1472 := rfl
  have hwritten : writeAt c udpHeaderSize payload = c.take 8 ++ payload := by
    have hdrop : c.drop (8 + payload.length) = [] := by rw [← hc, List.drop_length]
    rw [writeAt, udpHeaderSize, hdrop, List.append_nil]
  have hlength : (c.take 8 ++ payload).length = 8 + payload.length := by
    rw [List.length_append, List.length_take]
    omega
  rw [hwritten]
  apply udpEncodeHeader_ok hlength
  · exact List.drop_left' (by rw [List.length_take, hc]; omega)
  · rw [hlength, udpMaximumDatagramSize]
    omega

/-- The middle layer: an IPv4 header in front of the datagram. -/
theorem ipv4EncodeHeader_layer {b datagram : List UInt8} (hb : b.length = 20)
    (hle : datagram.length ≤ ipv4MaximumPayloadSize) (httl : fields.ttl ≠ 0) :
    ipv4EncodeHeader (b ++ datagram) ⟨fields.sourceIp, fields.destinationIp, 17, datagram.length,
      fields.identification, fields.ttl⟩ =
        .ok (ipv4Encoded (fields.ipv4 datagram.length) ++ datagram) := by
  rw [ipv4EncodeHeader_ok (by rw [List.length_append]; omega) hle httl, List.drop_left' hb]
  rfl

/-- **The encoder** writes the frame to the front of the buffer. -/
theorem encodeUdpFrame_ok {output : List UInt8} {outputStart : Nat} {payloadStart : Nat}
    (hpayload : payload.length ≤ maximumPayloadSize)
    (hroom : max minimumFrameSize (frameHeaderSize + payload.length) ≤ output.length)
    (hoverlap : overlaps outputStart (max minimumFrameSize (frameHeaderSize + payload.length))
      payloadStart payload.length = false) (httl : fields.ttl ≠ 0) :
    ∃ rest, encodeUdpFrame output outputStart fields payload payloadStart =
      .ok (max minimumFrameSize (frameHeaderSize + payload.length),
        frameBytes fields payload ++ rest) := by
  have hsize : frameHeaderSize = 42 := rfl
  have hmax : maximumPayloadSize = 1472 := rfl
  have hzeros : List.replicate (max minimumFrameSize (frameHeaderSize + payload.length) -
      (frameHeaderSize + payload.length)) 0 = framePadding payload := by
    rw [framePadding]
    congr 1
    omega
  have hpadding : (framePadding payload).length =
      minimumFrameSize - (frameHeaderSize + payload.length) := List.length_replicate
  -- the buffer, cut where the headers, the payload and the padding go
  obtain ⟨a, r, rfl, ha, hr⟩ := @exists_split output 14 (by omega)
  obtain ⟨b, r, rfl, hb, hr'⟩ := @exists_split r 20 (by omega)
  obtain ⟨c, r, rfl, hc, hr''⟩ := @exists_split r (8 + payload.length) (by omega)
  obtain ⟨p, r, rfl, hp, -⟩ := @exists_split r (framePadding payload).length (by omega)
  refine ⟨r, ?_⟩
  have hudp := length_udpEncoded fields.udp payload
  have ha' : a.length = ethernetHeaderSize := ha
  have hab : (a ++ b).length = ethernetHeaderSize + ipv4HeaderSize := by
    rw [List.length_append, ha, hb]
    rfl
  have hheaders : ethernetHeaderSize + ipv4HeaderSize + (8 + payload.length) =
      frameHeaderSize + payload.length := by
    rw [hsize, ethernetHeaderSize, ipv4HeaderSize]
    omega
  have habc : (a ++ b ++ c).length = frameHeaderSize + payload.length := by
    rw [List.length_append, hab, hc, hheaders]
  unfold encodeUdpFrame
  dsimp only
  rw [if_neg (Nat.not_lt.mpr hpayload), if_neg (Nat.not_lt.mpr hroom),
    if_neg (by rw [hoverlap]; decide), if_neg httl, hzeros,
    show a ++ (b ++ (c ++ (p ++ r))) = a ++ b ++ c ++ (p ++ r) by simp only [List.append_assoc],
    writeAt_mid habc hp.symm, List.append_assoc (a ++ b) c, cut_mid hab (hc ▸ hheaders),
    udpEncodeHeader_layer hpayload hc]
  dsimp only [Except.bind]
  rw [writeAt_mid hab (by omega), List.append_assoc a b, ← List.append_assoc b,
    cut_mid ha' (by rw [List.length_append, hb, hudp, ← Nat.add_assoc]; exact hheaders),
    ipv4EncodeHeader_layer hb (by rw [ipv4MaximumPayloadSize, ipv4HeaderSize]; omega) httl]
  dsimp only [Except.bind]
  rw [writeAt_mid ha' (by simp only [List.length_append, length_ipv4Encoded, hb]),
    List.take_left' ha', ethernetEncodeHeader_ok ha (show ¬ (0x0800 : UInt16) < 0x0600 by decide)]
  dsimp only [Except.bind]
  have hfront : ∀ rest, writeAt (a ++ rest) 0 (ethernetBytes fields.ethernet) =
      ethernetBytes fields.ethernet ++ rest := fun rest =>
    @writeAt_mid [] a (ethernetBytes fields.ethernet) rest 0 rfl (by rw [length_ethernetBytes, ha])
  change Except.ok (_, writeAt _ 0 (ethernetBytes fields.ethernet)) = _
  rw [hfront]
  simp only [frameBytes, frameAround, List.append_assoc]

/-! ### The decoder on such a frame -/

theorem decodeUdpFrame_ethernet {header : EthernetHeader} (htype : header.ethertype = 0x0800)
    (rest : List UInt8) : decodeUdpFrame (ethernetBytes header ++ rest) =
      (ipv4DecodePacket ⟨14, rest⟩).bind fun ip =>
        if ip.protocol ≠ 17 then .error .unsupportedProtocol
        else
          (udpDecodeHeader ip.payload.bytes).bind fun header =>
            if !udpChecksumValid ip.payload.bytes ip.source ip.destination then
              .error .badUdpChecksum
            else .ok
              ⟨ip.source, ip.destination, header.sourcePort, header.destinationPort,
                ip.payload.sub udpHeaderSize ip.payload.bytes.length⟩ := by
  have hword : be16At (ethernetBytes header ++ rest) 12 = 0x0800 := by
    rw [ethernetBytes, ofFn_six, ofFn_six, ← htype]
    exact be16At_append (a := [_, _, _, _, _, _, _, _, _, _, _, _]) rfl header.ethertype rest
  have hslice : (⟨0, ethernetBytes header ++ rest⟩ : Slice).sub ethernetHeaderSize
      (ethernetBytes header ++ rest).length = ⟨14, rest⟩ := by
    have hdrop : (ethernetBytes header ++ rest).drop ethernetHeaderSize = rest :=
      List.drop_left' (length_ethernetBytes header)
    rw [Slice.sub, List.take_length, hdrop]
    rfl
  unfold decodeUdpFrame ethernetDecodeHeader
  rw [if_neg (by rw [List.length_append, length_ethernetBytes, ethernetHeaderSize]; omega), hword,
    if_neg (by decide)]
  dsimp only [Except.bind]
  rw [if_neg (by simp), hslice]

theorem ipv4DecodePacket_checksum {s : Slice} {packet : Ipv4Packet}
    (h : ipv4DecodePacket s = .ok packet) : headerChecksumValid (s.bytes.take 20) = true := by
  unfold ipv4DecodePacket at h
  dsimp only at h
  split_ifs at h with h1 h2 h3 h4 h5 h6 h7
  simpa using h7

/-- IPv4 round trip, also with trailing bytes. -/
theorem ipv4DecodePacket_encoded {header : Ipv4Header}
    (hlength : header.payloadLength = payload.length)
    (hle : header.payloadLength ≤ ipv4MaximumPayloadSize) (httl : header.ttl ≠ 0) (start : Nat)
    (rest : List UInt8) : ipv4DecodePacket ⟨start, ipv4Encoded header ++ (payload ++ rest)⟩ =
      .ok ⟨header.source, header.destination, header.protocol, ⟨start + 20, payload⟩⟩ := by
  have hmax : ipv4MaximumPayloadSize = 65515 := rfl
  set bytes := ipv4Encoded header ++ (payload ++ rest) with hbytes
  have hexplicit : ∀ c, ipv4Bytes header c ++ (payload ++ rest) = [0x45, 0] ++
      (be16 (UInt16.ofNat (20 + header.payloadLength)) ++ (be16 header.identification ++
      (be16 0x4000 ++ ([header.ttl, header.protocol] ++ (be16 c ++ ([header.source 0,
        header.source 1, header.source 2, header.source 3] ++ ([header.destination 0,
        header.destination 1, header.destination 2, header.destination 3] ++
        (payload ++ rest)))))))) := by
    intro c
    rw [ipv4Bytes, ofFn_four, ofFn_four]
    rfl
  have hb : bytes = _ := hexplicit _
  have hsize : bytes.length = 20 + (payload.length + rest.length) := by
    rw [hbytes, List.length_append, length_ipv4Encoded, List.length_append]
  have htotal : (be16At bytes 2).toNat = 20 + payload.length := by
    have hword : be16At bytes 2 = UInt16.ofNat (20 + header.payloadLength) := by
      rw [hb]
      exact be16At_append rfl _ _
    rw [hword, hlength]
    exact UInt16.toNat_ofNat_of_lt' (by norm_num; omega)
  have hflags : be16At bytes 6 = 0x4000 := by rw [hb]; rfl
  have h0 : bytes.getD 0 0 = 0x45 := by rw [hb]; rfl
  have h8 : bytes.getD 8 0 = header.ttl := by rw [hb]; rfl
  have h9 : bytes.getD 9 0 = header.protocol := by rw [hb]; rfl
  have hsource : arrayAt 4 bytes 12 = header.source := by
    rw [hb]
    funext i
    fin_cases i <;> rfl
  have hdestination : arrayAt 4 bytes 16 = header.destination := by
    rw [hb]
    funext i
    fin_cases i <;> rfl
  have htake : bytes.take 20 = ipv4Encoded header := List.take_left' (length_ipv4Encoded header)
  have hpayload : (⟨start, bytes⟩ : Slice).sub 20 (20 + payload.length) =
      ⟨start + 20, payload⟩ := by
    have hfront : (ipv4Encoded header ++ payload).length = 20 + payload.length := by
      rw [List.length_append, length_ipv4Encoded]
    have htakes : bytes.take (20 + payload.length) = ipv4Encoded header ++ payload := by
      rw [hbytes, ← List.append_assoc]
      exact List.take_left' hfront
    rw [Slice.sub, htakes, List.drop_left' (length_ipv4Encoded header)]
  unfold ipv4DecodePacket
  dsimp only
  rw [htotal, hflags, h0, h8, h9, hsource, hdestination, htake, headerChecksumValid_encoded,
    hpayload, hsize, if_neg (by omega), if_neg (by decide), if_neg (by omega), if_neg (by decide),
    if_neg (by decide), if_neg httl, if_neg (by decide)]

variable {datagram : List UInt8}

/-- **The decoder on a frame** comes down to its check of the datagram. -/
theorem decodeUdpFrame_frame (httl : fields.ttl ≠ 0)
    (hle : datagram.length ≤ ipv4MaximumPayloadSize) (padding : List UInt8) :
    decodeUdpFrame (frameAround fields datagram padding) =
      (udpDecodeHeader datagram).bind fun header =>
        if !udpChecksumValid datagram fields.sourceIp fields.destinationIp then
          .error .badUdpChecksum
        else .ok ⟨fields.sourceIp, fields.destinationIp, header.sourcePort, header.destinationPort,
          ⟨42, datagram.drop 8⟩⟩ := by
  have hip := @ipv4DecodePacket_encoded datagram (fields.ipv4 datagram.length) rfl hle httl 14
    padding
  have hslice : (⟨14 + 20, datagram⟩ : Slice).sub udpHeaderSize datagram.length =
      ⟨42, datagram.drop 8⟩ := by
    rw [Slice.sub, List.take_length]
    rfl
  rw [frameAround, decodeUdpFrame_ethernet rfl, hip]
  dsimp only [Except.bind]
  have hprotocol : (fields.ipv4 datagram.length).protocol = 17 := rfl
  rw [if_neg (not_not.mpr hprotocol), hslice]
  rfl

/-! ### Replaced words -/

/-- An aligned word of the IPv4 header or of the datagram, in a frame with a payload of the given
length. -/
def AlignedWord (payloadLength off : Nat) : Prop :=
  (∃ k, k < 10 ∧ off = 14 + 2 * k) ∨ (∃ k, 2 * k + 2 ≤ 8 + payloadLength ∧ off = 34 + 2 * k)

/-- Where the checksum of the datagram lies in a frame. -/
def udpChecksumOffset : Nat := 40

/-- `0x0000` is replaced by `0xffff`, or the reverse. -/
def ZeroExchange (old new : UInt16) : Prop := (old = 0 ∧ new = 0xffff) ∨ (old = 0xffff ∧ new = 0)

theorem be16At_append_right {a r : List UInt8} {n : Nat} (ha : a.length = n) (off : Nat) :
    be16At (a ++ r) (n + off) = be16At r off := by
  have hget : ∀ i, (a ++ r).getD (n + i) 0 = r.getD i 0 := by
    intro i
    rw [← ha, List.getD_append_right _ _ _ _ (Nat.le_add_right _ _), Nat.add_sub_cancel_left]
  unfold be16At
  rw [Nat.add_assoc, hget, hget]

theorem be16At_append_left {a r : List UInt8} {off : Nat} (h : off + 2 ≤ a.length) :
    be16At (a ++ r) off = be16At a off := by
  unfold be16At
  rw [List.getD_append _ _ _ _ (by omega), List.getD_append _ _ _ _ (by omega)]

/-- A word that keeps a sum folding to `0xffff` is the old one, or exchanges the two zeros. -/
theorem zeroExchange_of_fold {sum sum' : Nat} {old new : UInt16} (hsum : foldCarry sum = 65535)
    (hsum' : foldCarry sum' = 65535) (heq : sum' + old.toNat = sum + new.toNat)
    (hne : new ≠ old) : ZeroExchange old new := by
  have hold : old.toNat < 65536 := old.toNat_lt
  have hnew : new.toNat < 65536 := new.toNat_lt
  rcases foldCarry_replace hsum hsum' heq (by omega) (by omega) with h | ⟨h0, h1⟩ | ⟨h0, h1⟩
  · exact absurd (UInt16.toNat_inj.mp h) hne
  · exact Or.inl ⟨UInt16.toNat_inj.mp h0, UInt16.toNat_inj.mp h1⟩
  · exact Or.inr ⟨UInt16.toNat_inj.mp h0, UInt16.toNat_inj.mp h1⟩

theorem exists_error {α : Type*} {result : Except FrameError α} (h : ∀ a, result ≠ .ok a) :
    ∃ e, result = .error e := by
  cases result with
  | error e => exact ⟨e, rfl⟩
  | ok a => exact absurd rfl (h a)

theorem fold_of_headerChecksumValid {header : List UInt8} (h : headerChecksumValid header = true) :
    foldCarry (sumWords header) = 65535 := by
  unfold headerChecksumValid at h
  split_ifs at h
  exact of_decide_eq_true h

/-- **A replaced word of the IPv4 header** is noticed. -/
theorem decode_ipv4_word {padding : List UInt8} {k : Nat} (hk : k < 10) {w : UInt16}
    (hne : w ≠ be16At (frameAround fields datagram padding) (14 + 2 * k))
    (hexchange : ¬ ZeroExchange (be16At (frameAround fields datagram padding) (14 + 2 * k)) w) :
    ∃ e, decodeUdpFrame (writeAt (frameAround fields datagram padding) (14 + 2 * k) (be16 w)) =
      .error e := by
  refine exists_error fun d hd => hexchange ?_
  set header := ipv4Encoded (fields.ipv4 datagram.length) with hheader
  have hlength : header.length = 20 := length_ipv4Encoded _
  have hword : be16At (frameAround fields datagram padding) (14 + 2 * k) =
      be16At header (2 * k) := by
    rw [frameAround, be16At_append_right (length_ethernetBytes _),
      be16At_append_left (by rw [← hheader, hlength]; omega)]
  have hwrite : writeAt (frameAround fields datagram padding) (14 + 2 * k) (be16 w) =
      ethernetBytes fields.ethernet ++
        (writeAt header (2 * k) (be16 w) ++ (datagram ++ padding)) := by
    rw [frameAround, Layout.writeAt_append_right (length_ethernetBytes _),
      Layout.writeAt_append_left (by rw [length_be16, ← hheader, hlength]; omega)]
  have hsize : (writeAt header (2 * k) (be16 w)).length = 20 := by
    rw [Layout.length_writeAt (by rw [length_be16, hlength]; omega), hlength]
  rw [hwrite, decodeUdpFrame_ethernet rfl] at hd
  cases hpacket : ipv4DecodePacket
      ⟨14, writeAt header (2 * k) (be16 w) ++ (datagram ++ padding)⟩ with
  | error e => rw [hpacket] at hd; cases hd
  | ok packet =>
    have hnew := ipv4DecodePacket_checksum hpacket
    dsimp only at hnew
    rw [List.take_left' hsize] at hnew
    rw [hword] at hne ⊢
    exact zeroExchange_of_fold (fold_of_headerChecksumValid (headerChecksumValid_encoded _))
      (fold_of_headerChecksumValid hnew) (sumWords_writeAt_word w (by rw [hlength]; omega)) hne

theorem decode_datagram (httl : fields.ttl ≠ 0) {padding : List UInt8}
    (hle : datagram.length ≤ ipv4MaximumPayloadSize) {d : Datagram}
    (h : decodeUdpFrame (frameAround fields datagram padding) = .ok d) : be16At datagram 6 ≠ 0 ∧
      foldCarry (udpSum datagram fields.sourceIp fields.destinationIp) = 65535 := by
  rw [decodeUdpFrame_frame httl hle] at h
  cases hheader : udpDecodeHeader datagram with
  | error e => rw [hheader] at h; cases h
  | ok header =>
    rw [hheader] at h
    dsimp only [Except.bind] at h
    split_ifs at h with hvalid
    rw [Bool.not_eq_true', Bool.not_eq_false] at hvalid
    unfold udpChecksumValid at hvalid
    rw [hheader] at hvalid
    dsimp only at hvalid
    split_ifs at hvalid with hzero
    exact ⟨hzero, of_decide_eq_true hvalid⟩

theorem writeAt_frameAround {padding bytes : List UInt8} {off : Nat}
    (h : off + bytes.length ≤ datagram.length) :
    writeAt (frameAround fields datagram padding) (34 + off) bytes =
      frameAround fields (writeAt datagram off bytes) padding := by
  unfold frameAround
  rw [show 34 + off = 14 + (20 + off) by omega,
    Layout.writeAt_append_right (length_ethernetBytes _),
    Layout.writeAt_append_right (length_ipv4Encoded _), Layout.writeAt_append_left h,
    Layout.length_writeAt h]

/-- **A replaced word of the datagram** is noticed; in the checksum field also the exchange of the
two zeros is. -/
theorem decode_udp_word (httl : fields.ttl ≠ 0) (hpayload : payload.length ≤ maximumPayloadSize)
    {k : Nat} (hk : 2 * k + 2 ≤ 8 + payload.length) {w : UInt16}
    (hne : w ≠ be16At (frameBytes fields payload) (34 + 2 * k))
    (hexchange : 34 + 2 * k ≠ udpChecksumOffset →
      ¬ ZeroExchange (be16At (frameBytes fields payload) (34 + 2 * k)) w) :
    ∃ e, decodeUdpFrame (writeAt (frameBytes fields payload) (34 + 2 * k) (be16 w)) = .error e := by
  refine exists_error fun d hd => ?_
  have hmax : maximumPayloadSize = 1472 := rfl
  have hmaxIp : ipv4MaximumPayloadSize = 65515 := rfl
  have hlength : (udpEncoded fields.udp payload).length = 8 + payload.length :=
    length_udpEncoded _ _
  have hroom : 2 * k + (be16 w).length ≤ (udpEncoded fields.udp payload).length := by
    rw [length_be16, hlength]
    exact hk
  have hword : be16At (frameBytes fields payload) (34 + 2 * k) =
      be16At (udpEncoded fields.udp payload) (2 * k) := by
    rw [frameBytes, frameAround, show 34 + 2 * k = 14 + (20 + 2 * k) by omega,
      be16At_append_right (length_ethernetBytes _), be16At_append_right (length_ipv4Encoded _),
      be16At_append_left (by rw [hlength]; exact hk)]
  rw [frameBytes, writeAt_frameAround hroom] at hd
  obtain ⟨hchecksum, hfold⟩ :=
    decode_datagram httl (by rw [Layout.length_writeAt hroom, hlength]; omega) hd
  have hsum : udpSum (writeAt (udpEncoded fields.udp payload) (2 * k) (be16 w)) fields.sourceIp
      fields.destinationIp + (be16At (udpEncoded fields.udp payload) (2 * k)).toNat =
      udpSum (udpEncoded fields.udp payload) fields.sourceIp fields.destinationIp + w.toNat := by
    have := sumWords_writeAt_word w (show 2 * k + 2 ≤ (udpEncoded fields.udp payload).length by
      rw [hlength]; exact hk)
    unfold udpSum
    rw [Layout.length_writeAt hroom]
    omega
  rw [hword] at hne hexchange
  have hzero : ZeroExchange (be16At (udpEncoded fields.udp payload) (2 * k)) w :=
    zeroExchange_of_fold (foldCarry_udpEncoded fields.udp payload) hfold hsum hne
  by_cases hoff : 34 + 2 * k = udpChecksumOffset
  · -- the checksum written by the encoder is not zero, and a zero is refused
    have hk3 : k = 3 := by
      rw [udpChecksumOffset] at hoff
      omega
    subst hk3
    rcases hzero with ⟨hold, -⟩ | ⟨-, hnew⟩
    · exact udpChecksum_ne_zero fields.udp payload
        ((udpChecksum_at fields.udp payload).symm.trans hold)
    · refine hchecksum ?_
      have hat : be16At (writeAt (udpEncoded fields.udp payload) 6 (be16 w)) 6 = w := by
        rw [writeAt, List.append_assoc]
        exact be16At_append (by rw [List.length_take, hlength]; omega) w _
      exact hat.trans hnew
  · exact hexchange hoff hzero

/-- **A replaced odd last byte** is noticed. -/
theorem decode_udp_byte (httl : fields.ttl ≠ 0) (hpayload : payload.length ≤ maximumPayloadSize)
    {k : Nat} (hk : 8 + payload.length = 2 * k + 1) {b : UInt8}
    (hne : b ≠ (frameBytes fields payload).getD (34 + 2 * k) 0) :
    ∃ e, decodeUdpFrame (writeAt (frameBytes fields payload) (34 + 2 * k) [b]) = .error e := by
  refine exists_error fun d hd => ?_
  have hmax : maximumPayloadSize = 1472 := rfl
  have hmaxIp : ipv4MaximumPayloadSize = 65515 := rfl
  have hlength : (udpEncoded fields.udp payload).length = 2 * k + 1 := by
    rw [length_udpEncoded, hk]
  have hroom : 2 * k + [b].length ≤ (udpEncoded fields.udp payload).length := by
    rw [hlength, List.length_singleton]
  have hbyte : (frameBytes fields payload).getD (34 + 2 * k) 0 =
      (udpEncoded fields.udp payload).getD (2 * k) 0 := by
    rw [frameBytes, frameAround, show 34 + 2 * k = 14 + (20 + 2 * k) by omega,
      List.getD_append_right _ _ _ _ (by rw [length_ethernetBytes]; omega),
      List.getD_append_right _ _ _ _ (by rw [length_ethernetBytes, length_ipv4Encoded]; omega),
      length_ethernetBytes, length_ipv4Encoded, Nat.add_sub_cancel_left, Nat.add_sub_cancel_left,
      List.getD_append _ _ _ _ (by rw [hlength]; omega)]
  rw [frameBytes, writeAt_frameAround hroom] at hd
  obtain ⟨-, hfold⟩ := decode_datagram httl (by rw [Layout.length_writeAt hroom, hlength]; omega) hd
  have hsum : udpSum (writeAt (udpEncoded fields.udp payload) (2 * k) [b]) fields.sourceIp
      fields.destinationIp + 256 * ((udpEncoded fields.udp payload).getD (2 * k) 0).toNat =
      udpSum (udpEncoded fields.udp payload) fields.sourceIp fields.destinationIp +
        256 * b.toNat := by
    have := sumWords_writeAt_byte b hlength
    unfold udpSum
    rw [Layout.length_writeAt hroom]
    omega
  have hb : b.toNat < 256 := b.toNat_lt
  have hold : ((udpEncoded fields.udp payload).getD (2 * k) 0).toNat < 256 := UInt8.toNat_lt _
  -- two multiples of `256` below `65536` are not apart by `65535`
  have hsame := foldCarry_replace (foldCarry_udpEncoded fields.udp payload) hfold hsum (by omega)
    (by omega)
  rw [hbyte] at hne
  exact hne (UInt8.toNat_inj.mp (by omega))

/-- **UDP frames**: what the encoder writes is decoded to the same addresses, ports and payload, and
the decoder rejects every frame obtained from it by replacing one aligned word of the IPv4 header or
of the datagram, or the odd last byte of the datagram, by another value, except that it may not
notice an exchange of `0x0000` and `0xffff` outside the checksum field of the datagram. -/
theorem udp_frame_round_trip (output : List UInt8) (outputStart : Nat) (fields : FrameFields)
    (payload : List UInt8) (payloadStart : Nat) (hpayload : payload.length ≤ maximumPayloadSize)
    (httl : fields.ttl ≠ 0)
    (hroom : max minimumFrameSize (frameHeaderSize + payload.length) ≤ output.length)
    (hoverlap : overlaps outputStart (max minimumFrameSize (frameHeaderSize + payload.length))
      payloadStart payload.length = false) :
    ∃ n output', encodeUdpFrame output outputStart fields payload payloadStart = .ok (n, output') ∧
      n = max minimumFrameSize (frameHeaderSize + payload.length) ∧ n ≤ output'.length ∧
      decodeUdpFrame (output'.take n) = .ok ⟨fields.sourceIp, fields.destinationIp,
        fields.sourcePort, fields.destinationPort, ⟨frameHeaderSize, payload⟩⟩ ∧
      ((output'.take n).drop frameHeaderSize).take payload.length = payload ∧
      (∀ off w, AlignedWord payload.length off → w ≠ be16At (output'.take n) off →
        (off ≠ udpChecksumOffset → ¬ ZeroExchange (be16At (output'.take n) off) w) →
        ∃ e, decodeUdpFrame (writeAt (output'.take n) off (be16 w)) = .error e) ∧
      ∀ k b, 8 + payload.length = 2 * k + 1 → b ≠ (output'.take n).getD (34 + 2 * k) 0 →
        ∃ e, decodeUdpFrame (writeAt (output'.take n) (34 + 2 * k) [b]) = .error e := by
  obtain ⟨rest, hencode⟩ := encodeUdpFrame_ok hpayload hroom hoverlap httl
  have hmax : maximumPayloadSize = 1472 := rfl
  have hmaxIp : ipv4MaximumPayloadSize = 65515 := rfl
  have hframe : (frameBytes fields payload ++ rest).take
      (max minimumFrameSize (frameHeaderSize + payload.length)) = frameBytes fields payload :=
    List.take_left' (length_frameBytes fields payload)
  have hdrop : (udpEncoded fields.udp payload).drop 8 = payload := rfl
  refine ⟨_, _, hencode, rfl, ?_, ?_, ?_, fun off w hoff hne hexchange => ?_, fun k b hk hne => ?_⟩
  · rw [List.length_append, length_frameBytes]
    exact Nat.le_add_right _ _
  · rw [hframe, frameBytes, decodeUdpFrame_frame httl (by rw [length_udpEncoded]; omega),
      udpDecodeHeader_encoded hpayload, hdrop]
    dsimp only [Except.bind]
    have hvalid := @udpChecksumValid_encoded payload fields.udp hpayload
    rw [FrameFields.udp] at hvalid ⊢
    rw [hvalid]
    rfl
  · have hfront : (ethernetBytes fields.ethernet ++ (ipv4Encoded
        (fields.ipv4 (udpEncoded fields.udp payload).length) ++
          (udpEncoded fields.udp payload).take 8)).length = frameHeaderSize := by
      simp only [List.length_append, length_ethernetBytes, length_ipv4Encoded, List.length_take,
        length_udpEncoded, show frameHeaderSize = 42 from rfl]
      omega
    have hsplit : frameBytes fields payload = (ethernetBytes fields.ethernet ++ (ipv4Encoded
        (fields.ipv4 (udpEncoded fields.udp payload).length) ++
          (udpEncoded fields.udp payload).take 8)) ++ (payload ++ framePadding payload) := by
      have hparts := List.take_append_drop 8 (udpEncoded fields.udp payload)
      rw [hdrop] at hparts
      simp only [frameBytes, frameAround, List.append_assoc]
      rw [← List.append_assoc _ payload, hparts]
    rw [hframe, hsplit, List.drop_left' hfront, List.take_left' rfl]
  · rw [hframe] at hne hexchange ⊢
    rcases hoff with ⟨k, hk, rfl⟩ | ⟨k, hk, rfl⟩
    · refine decode_ipv4_word hk hne (hexchange ?_)
      rw [udpChecksumOffset]
      omega
    · exact decode_udp_word httl hpayload hk hne hexchange
  · rw [hframe] at hne ⊢
    exact decode_udp_byte httl hpayload hk hne

/-- A frame between two hosts of one network. -/
def greetingFields : FrameFields where
  destinationMac := ![0x52, 0x54, 0, 0x12, 0x34, 0x57]
  sourceMac := ![0x52, 0x54, 0, 0x12, 0x34, 0x56]
  sourceIp := ![10, 0, 2, 15]
  destinationIp := ![10, 0, 2, 2]
  sourcePort := 4000
  destinationPort := 9000
  identification := 1
  ttl := 64

theorem udp_frame_round_trip_greeting :
    ∃ n output', encodeUdpFrame (List.replicate 64 0) 0 greetingFields [104, 105, 33] 4096 =
        .ok (n, output') ∧ n = 60 ∧
      decodeUdpFrame (output'.take n) = .ok ⟨greetingFields.sourceIp, greetingFields.destinationIp,
        greetingFields.sourcePort, greetingFields.destinationPort,
        ⟨frameHeaderSize, [104, 105, 33]⟩⟩ := by
  obtain ⟨n, output', hencode, hn, -, hdecode, -⟩ :=
    udp_frame_round_trip (List.replicate 64 0) 0 greetingFields [104, 105, 33] 4096 (by decide)
      (by decide) (by decide) (by decide)
  exact ⟨n, output', hencode, hn, hdecode⟩

end Jani
