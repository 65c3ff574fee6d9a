import EduDevices.Library.Memory

namespace EduDevices.Aes

abbrev AesBlock := Vector Byte 16

abbrev RoundKeys := Vector Byte 176

set_option maxRecDepth 2048 in
def aesSbox : Vector Byte 256 := #v[
  0x63, 0x7c, 0x77, 0x7b, 0xf2, 0x6b, 0x6f, 0xc5, 0x30, 0x01, 0x67, 0x2b, 0xfe, 0xd7, 0xab, 0x76,
  0xca, 0x82, 0xc9, 0x7d, 0xfa, 0x59, 0x47, 0xf0, 0xad, 0xd4, 0xa2, 0xaf, 0x9c, 0xa4, 0x72, 0xc0,
  0xb7, 0xfd, 0x93, 0x26, 0x36, 0x3f, 0xf7, 0xcc, 0x34, 0xa5, 0xe5, 0xf1, 0x71, 0xd8, 0x31, 0x15,
  0x04, 0xc7, 0x23, 0xc3, 0x18, 0x96, 0x05, 0x9a, 0x07, 0x12, 0x80, 0xe2, 0xeb, 0x27, 0xb2, 0x75,
  0x09, 0x83, 0x2c, 0x1a, 0x1b, 0x6e, 0x5a, 0xa0, 0x52, 0x3b, 0xd6, 0xb3, 0x29, 0xe3, 0x2f, 0x84,
  0x53, 0xd1, 0x00, 0xed, 0x20, 0xfc, 0xb1, 0x5b, 0x6a, 0xcb, 0xbe, 0x39, 0x4a, 0x4c, 0x58, 0xcf,
  0xd0, 0xef, 0xaa, 0xfb, 0x43, 0x4d, 0x33, 0x85, 0x45, 0xf9, 0x02, 0x7f, 0x50, 0x3c, 0x9f, 0xa8,
  0x51, 0xa3, 0x40, 0x8f, 0x92, 0x9d, 0x38, 0xf5, 0xbc, 0xb6, 0xda, 0x21, 0x10, 0xff, 0xf3, 0xd2,
  0xcd, 0x0c, 0x13, 0xec, 0x5f, 0x97, 0x44, 0x17, 0xc4, 0xa7, 0x7e, 0x3d, 0x64, 0x5d, 0x19, 0x73,
  0x60, 0x81, 0x4f, 0xdc, 0x22, 0x2a, 0x90, 0x88, 0x46, 0xee, 0xb8, 0x14, 0xde, 0x5e, 0x0b, 0xdb,
  0xe0, 0x32, 0x3a, 0x0a, 0x49, 0x06, 0x24, 0x5c, 0xc2, 0xd3, 0xac, 0x62, 0x91, 0x95, 0xe4, 0x79,
  0xe7, 0xc8, 0x37, 0x6d, 0x8d, 0xd5, 0x4e, 0xa9, 0x6c, 0x56, 0xf4, 0xea, 0x65, 0x7a, 0xae, 0x08,
  0xba, 0x78, 0x25, 0x2e, 0x1c, 0xa6, 0xb4, 0xc6, 0xe8, 0xdd, 0x74, 0x1f, 0x4b, 0xbd, 0x8b, 0x8a,
  0x70, 0x3e, 0xb5, 0x66, 0x48, 0x03, 0xf6, 0x0e, 0x61, 0x35, 0x57, 0xb9, 0x86, 0xc1, 0x1d, 0x9e,
  0xe1, 0xf8, 0x98, 0x11, 0x69, 0xd9, 0x8e, 0x94, 0x9b, 0x1e, 0x87, 0xe9, 0xce, 0x55, 0x28, 0xdf,
  0x8c, 0xa1, 0x89, 0x0d, 0xbf, 0xe6, 0x42, 0x68, 0x41, 0x99, 0x2d, 0x0f, 0xb0, 0x54, 0xbb, 0x16]

set_option maxRecDepth 2048 in
def aesInvSbox : Vector Byte 256 := #v[
  0x52, 0x09, 0x6a, 0xd5, 0x30, 0x36, 0xa5, 0x38, 0xbf, 0x40, 0xa3, 0x9e, 0x81, 0xf3, 0xd7, 0xfb,
  0x7c, 0xe3, 0x39, 0x82, 0x9b, 0x2f, 0xff, 0x87, 0x34, 0x8e, 0x43, 0x44, 0xc4, 0xde, 0xe9, 0xcb,
  0x54, 0x7b, 0x94, 0x32, 0xa6, 0xc2, 0x23, 0x3d, 0xee, 0x4c, 0x95, 0x0b, 0x42, 0xfa, 0xc3, 0x4e,
  0x08, 0x2e, 0xa1, 0x66, 0x28, 0xd9, 0x24, 0xb2, 0x76, 0x5b, 0xa2, 0x49, 0x6d, 0x8b, 0xd1, 0x25,
  0x72, 0xf8, 0xf6, 0x64, 0x86, 0x68, 0x98, 0x16, 0xd4, 0xa4, 0x5c, 0xcc, 0x5d, 0x65, 0xb6, 0x92,
  0x6c, 0x70, 0x48, 0x50, 0xfd, 0xed, 0xb9, 0xda, 0x5e, 0x15, 0x46, 0x57, 0xa7, 0x8d, 0x9d, 0x84,
  0x90, 0xd8, 0xab, 0x00, 0x8c, 0xbc, 0xd3, 0x0a, 0xf7, 0xe4, 0x58, 0x05, 0xb8, 0xb3, 0x45, 0x06,
  0xd0, 0x2c, 0x1e, 0x8f, 0xca, 0x3f, 0x0f, 0x02, 0xc1, 0xaf, 0xbd, 0x03, 0x01, 0x13, 0x8a, 0x6b,
  0x3a, 0x91, 0x11, 0x41, 0x4f, 0x67, 0xdc, 0xea, 0x97, 0xf2, 0xcf, 0xce, 0xf0, 0xb4, 0xe6, 0x73,
  0x96, 0xac, 0x74, 0x22, 0xe7, 0xad, 0x35, 0x85, 0xe2, 0xf9, 0x37, 0xe8, 0x1c, 0x75, 0xdf, 0x6e,
  0x47, 0xf1, 0x1a, 0x71, 0x1d, 0x29, 0xc5, 0x89, 0x6f, 0xb7, 0x62, 0x0e, 0xaa, 0x18, 0xbe, 0x1b,
  0xfc, 0x56, 0x3e, 0x4b, 0xc6, 0xd2, 0x79, 0x20, 0x9a, 0xdb, 0xc0, 0xfe, 0x78, 0xcd, 0x5a, 0xf4,
  0x1f, 0xdd, 0xa8, 0x33, 0x88, 0x07, 0xc7, 0x31, 0xb1, 0x12, 0x10, 0x59, 0x27, 0x80, 0xec, 0x5f,
  0x60, 0x51, 0x7f, 0xa9, 0x19, 0xb5, 0x4a, 0x0d, 0x2d, 0xe5, 0x7a, 0x9f, 0x93, 0xc9, 0x9c, 0xef,
  0xa0, 0xe0, 0x3b, 0x4d, 0xae, 0x2a, 0xf5, 0xb0, 0xc8, 0xeb, 0xbb, 0x3c, 0x83, 0x53, 0x99, 0x61,
  0x17, 0x2b, 0x04, 0x7e, 0xba, 0x77, 0xd6, 0x26, 0xe1, 0x69, 0x14, 0x63, 0x55, 0x21, 0x0c, 0x7d]

def rcon : Vector Byte 10 := #v[
  0x01, 0x02, 0x04, 0x08, 0x10, 0x20, 0x40, 0x80, 0x1b, 0x36]

/-- The byte is multiplied by two in the field. -/
def xtime (x : Byte) : Byte :=
  (x <<< 1) ^^^ if x &&& 0x80 ≠ 0 then 0x1b else 0x00

/-- One round of the expansion loop computes word `i = index + 4` from the words before it. -/
def expandWord (rk : RoundKeys) (index : Nat) (inside : index < 40) : RoundKeys :=
  let i := index + 4
  let t0 := rk[(i - 1) * 4]
  let t1 := rk[(i - 1) * 4 + 1]
  let t2 := rk[(i - 1) * 4 + 2]
  let t3 := rk[(i - 1) * 4 + 3]
  let t : Vector Byte 4 :=
    if i % 4 = 0 then
      #v[aesSbox[t1.toNat] ^^^ rcon[i / 4 - 1], aesSbox[t2.toNat], aesSbox[t3.toNat],
        aesSbox[t0.toNat]]
    else #v[t0, t1, t2, t3]
  Nat.fold 4 (fun j _ rk => rk.set (i * 4 + j) (rk[(i - 4) * 4 + j] ^^^ t[j])) rk

/-- Every byte after the key copy is written before it is read, so the rest starts as zero. -/
def aesKeyExpand (key : AesBlock) : RoundKeys :=
  Nat.fold 40 (fun index inside rk => expandWord rk index inside)
    (key ++ Vector.replicate 160 (0 : Byte))

def addRoundKey (rk : RoundKeys) (r : Nat) (valid : r ≤ 10) (s : AesBlock) : AesBlock :=
  Vector.ofFn fun i => s[i] ^^^ rk[r * 16 + i.val]

def subBytes (s : AesBlock) : AesBlock := s.map fun x => aesSbox[x.toNat]

def invSubBytes (s : AesBlock) : AesBlock := s.map fun x => aesInvSbox[x.toNat]

/-- The assignments stand in the order of the source. -/
def shiftRows (s : AesBlock) : AesBlock :=
  let t := s[1]
  let s := s.set 1 s[5]
  let s := s.set 5 s[9]
  let s := s.set 9 s[13]
  let s := s.set 13 t
  let t := s[2]
  let s := s.set 2 s[10]
  let s := s.set 10 t
  let t := s[6]
  let s := s.set 6 s[14]
  let s := s.set 14 t
  let t := s[15]
  let s := s.set 15 s[11]
  let s := s.set 11 s[7]
  let s := s.set 7 s[3]
  s.set 3 t

def invShiftRows (s : AesBlock) : AesBlock :=
  let t := s[13]
  let s := s.set 13 s[9]
  let s := s.set 9 s[5]
  let s := s.set 5 s[1]
  let s := s.set 1 t
  let t := s[2]
  let s := s.set 2 s[10]
  let s := s.set 10 t
  let t := s[6]
  let s := s.set 6 s[14]
  let s := s.set 14 t
  let t := s[3]
  let s := s.set 3 s[7]
  let s := s.set 7 s[11]
  let s := s.set 11 s[15]
  s.set 15 t

/-- The column loop replaces four bytes at a time by a function of the same four bytes. -/
def forColumns (f : Byte → Byte → Byte → Byte → Vector Byte 4) (s : AesBlock) : AesBlock :=
  Nat.fold 4 (fun i _ s =>
    let mixed := f s[i * 4] s[i * 4 + 1] s[i * 4 + 2] s[i * 4 + 3]
    let s := s.set (i * 4) mixed[0]
    let s := s.set (i * 4 + 1) mixed[1]
    let s := s.set (i * 4 + 2) mixed[2]
    s.set (i * 4 + 3) mixed[3]) s

def mixColumn (a b cc d : Byte) : Vector Byte 4 := #v[
  xtime a ^^^ xtime b ^^^ b ^^^ cc ^^^ d,
  a ^^^ xtime b ^^^ xtime cc ^^^ cc ^^^ d,
  a ^^^ b ^^^ xtime cc ^^^ xtime d ^^^ d,
  xtime a ^^^ a ^^^ b ^^^ cc ^^^ xtime d]

def mixColumns : AesBlock → AesBlock := forColumns mixColumn

def invMixColumn (a b cc d : Byte) : Vector Byte 4 :=
  let x2a := xtime a
  let x2b := xtime b
  let x2c := xtime cc
  let x2d := xtime d
  let x4a := xtime x2a
  let x4b := xtime x2b
  let x4c := xtime x2c
  let x4d := xtime x2d
  let x8a := xtime x4a
  let x8b := xtime x4b
  let x8c := xtime x4c
  let x8d := xtime x4d
  #v[(x8a ^^^ x4a ^^^ x2a) ^^^ (x8b ^^^ x2b ^^^ b) ^^^ (x8c ^^^ x4c ^^^ cc) ^^^ (x8d ^^^ d),
    (x8a ^^^ a) ^^^ (x8b ^^^ x4b ^^^ x2b) ^^^ (x8c ^^^ x2c ^^^ cc) ^^^ (x8d ^^^ x4d ^^^ d),
    (x8a ^^^ x4a ^^^ a) ^^^ (x8b ^^^ b) ^^^ (x8c ^^^ x4c ^^^ x2c) ^^^ (x8d ^^^ x2d ^^^ d),
    (x8a ^^^ x2a ^^^ a) ^^^ (x8b ^^^ x4b ^^^ b) ^^^ (x8c ^^^ cc) ^^^ (x8d ^^^ x4d ^^^ x2d)]

def invMixColumns : AesBlock → AesBlock := forColumns invMixColumn

/-- The loop counts `r = index + 1` from one to nine. -/
def aesEncryptBlock (rk : RoundKeys) (input : AesBlock) : AesBlock :=
  let s := addRoundKey rk 0 (by decide) input
  let s := Nat.fold 9 (fun index inside s =>
    addRoundKey rk (index + 1) (by omega) (mixColumns (shiftRows (subBytes s)))) s
  addRoundKey rk 10 (by decide) (shiftRows (subBytes s))

/-- The loop counts `r = index + 1` from nine to one. -/
def aesDecryptBlock (rk : RoundKeys) (input : AesBlock) : AesBlock :=
  let s := addRoundKey rk 10 (by decide) input
  let s := Nat.foldRev 9 (fun index inside s =>
    invMixColumns (addRoundKey rk (index + 1) (by omega) (invSubBytes (invShiftRows s)))) s
  addRoundKey rk 0 (by decide) (invSubBytes (invShiftRows s))

/-- The sixteen bytes of a buffer from an offset on. -/
def blockAt (buffer : List Byte) (i : Nat) : AesBlock :=
  Vector.ofFn fun j => buffer.getD (i + j.val) 0

def xorBlock (first second : AesBlock) : AesBlock :=
  Vector.ofFn fun j => first[j] ^^^ second[j]

/-- The loop over `i = index * 16` carries `prev` and the bytes written to `out`. -/
def aesCbcEncrypt (rk : RoundKeys) (iv : AesBlock) (input : List Byte) (len : Nat) : List Byte :=
  (Nat.fold ((len + 15) / 16) (fun index _ (prev, out) =>
    let block := xorBlock (blockAt input (index * 16)) prev
    let written := aesEncryptBlock rk block
    (written, out ++ written.toList)) (iv, [])).2

/-- The chaining value comes from the input, which the output does not overlap. -/
def aesCbcDecrypt (rk : RoundKeys) (iv : AesBlock) (input : List Byte) (len : Nat) : List Byte :=
  (Nat.fold ((len + 15) / 16) (fun index _ (prev, out) =>
    let block := aesDecryptBlock rk (blockAt input (index * 16))
    (blockAt input (index * 16), out ++ (xorBlock block prev).toList)) (iv, [])).2

end EduDevices.Aes
