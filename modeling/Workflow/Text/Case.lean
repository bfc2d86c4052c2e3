/-
Upper, lower and title case of a text, by the full case mappings of the
character database: one character may become several (`ß` to `SS`), and a
capital sigma that ends a word becomes the final sigma.

A mapping is a table of runs `place:image`, each sending a run of consecutive
code points (every second one after `/2`) to a run that starts at `image`, and
a table of characters with longer images.
-/
import Workflow.Text.CharSet

namespace Workflow.Text

/-- A run of code points `first … last` in steps of `step`, shifted as a whole to start at `image`. -/
structure CaseRun where
  first : Nat
  last : Nat
  step : Nat
  image : Nat
  deriving Inhabited

/-- A case mapping: shifted runs, and the characters whose image is longer than one character. -/
structure CaseMap where
  runs : Array CaseRun
  longer : List (Nat × List Char)
  deriving Inhabited

namespace CaseMap

/-- Reads the runs after a code point, each `place:image` or `place/2:image`. -/
def readRuns (last : Nat) : List String → List CaseRun
  | [] => []
  | entry :: rest =>
    let (source, image) := match entry.splitOn ":" with
      | [source, image] => (source, image.toList.headD '0')
      | _ => (entry, '0')
    let (place, step) := match source.splitOn "/" with
      | [place, _] => (place, 2)
      | _ => (source, 1)
    let (gap, more) := readPlace place
    ⟨last + gap, last + gap + more, step, image.toNat⟩ :: readRuns (last + gap + more) rest

/-- Reads one longer image, which stands behind its source. -/
def readLonger (text : String) : Nat × List Char := ((text.toList.headD '0').toNat, text.toList.tail)

/-- Reads the two tables of a mapping. -/
def ofText (runs longer : String) : CaseMap :=
  ⟨(readRuns 0 (tableEntries runs)).toArray, (tableEntries longer).map readLonger⟩

/-- The shifted code point, if one of the runs at positions `lo ≤ i < hi` holds `n`. -/
def search (runs : Array CaseRun) (n lo hi : Nat) : Option Nat :=
  if lo < hi then
    let mid := (lo + hi) / 2
    match runs[mid]? with
    | none => none
    | some r =>
      if n < r.first then search runs n lo mid
      else if r.last < n then search runs n (mid + 1) hi
      else if (n - r.first) % r.step = 0 then some (r.image + (n - r.first))
      else none
  else none
termination_by hi - lo

/-- The image of a character, if the mapping changes it. -/
def image? (m : CaseMap) (c : Char) : Option (List Char) :=
  match search m.runs c.toNat 0 m.runs.size with
  | some n => some [Char.ofNat n]
  | none => m.longer.lookup c.toNat

/-- The image of a character. -/
def apply (m : CaseMap) (c : Char) : List Char := (m.image? c).getD [c]

end CaseMap

def upperMap : CaseMap := .ofText
  "61-19:A 3b:Μ 2b-16:À 2-6:Ø :Ÿ 2-2e/2:Ā 2:I 2-4/2:Ĳ 3-e/2:Ĺ 3-2c/2:Ŋ 3-4/2:Ź :S :Ƀ 3-2/2:Ƃ 3:Ƈ 4:Ƌ
    6:Ƒ 3:Ƕ 4:Ƙ :Ƚ 4:Ƞ 3-4/2:Ơ 3:Ƨ 5:Ƭ 3:Ư 4-2/2:Ƴ 3:Ƹ 4:Ƽ 2:Ƿ 6:Ǆ :Ǆ 2:Ǉ :Ǉ 2:Ǌ :Ǌ 2-e/2:Ǎ :Ǝ
    2-10/2:Ǟ 3:Ǳ :Ǳ 2:Ǵ 4-26/2:Ǹ 4-10/2:Ȣ 9:Ȼ 3-1:Ȿ 2:Ɂ 5-8/2:Ɇ :Ɐ :Ɑ :Ɒ :Ɓ :Ɔ 2-1:Ɖ 2:Ə 2:Ɛ :Ɜ 4:Ɠ
    :Ɡ 2:Ɣ 2:Ɥ :Ɦ 2:Ɨ :Ɩ :Ɪ :Ɫ :Ɬ 3:Ɯ 2:Ɱ :Ɲ 3:Ɵ 8:Ɽ 3:Ʀ 2:Ʂ :Ʃ 4:Ʇ :Ʈ :Ʉ -1:Ʊ :Ʌ 6:Ʒ b:Ʝ :Ʞ a7:Ι
    2c-2/2:Ͱ 4:Ͷ 4-2:Ͻ 2f:Ά -2:Έ 2-10:Α :Σ -8:Σ :Ό -1:Ύ 2:Β :Θ 4:Φ :Π :Ϗ 2-16/2:Ϙ :Κ :Ρ :Ϲ :Ϳ 2:Ε
    3:Ϸ 3:Ϻ 35-1f:А -f:Ѐ 2-20/2:Ѡ a-34/2:Ҋ 3-c/2:Ӂ :Ӏ 2-5e/2:Ӑ 32-25:Ա b4a-2a:Ა 3-2:Ჽ 2f9-5:Ᏸ 883:В
    :Д :О -1:С :Т :Ъ :Ѣ :Ꙋ f1:Ᵹ 4:Ᵽ 11:Ᶎ 73-94/2:Ḁ 6:Ṡ 6-5e/2:Ạ -7:Ἀ 9-5:Ἐ b-7:Ἠ 9-7:Ἰ 9-5:Ὀ c-6/2:Ὑ
    9-7:Ὠ 9-1:Ὰ -3:Ὲ -1:Ὶ -1:Ὸ -1:Ὺ -1:Ὼ 33-1:Ᾰ d:Ι 12-1:Ῐ f-1:Ῠ 4:Ῥ 169:Ⅎ 22-f:Ⅰ 5:Ↄ 34c-19:Ⓐ
    747-2f:Ⰰ 2:Ⱡ 4:Ⱥ :Ⱦ 2-4/2:Ⱨ 7:Ⱳ 3:Ⱶ b-62/2:Ⲁ 9-2/2:Ⳬ 5:Ⳳ d-25:Ⴀ 2:Ⴧ 6:Ⴭ 7914-2c/2:Ꙁ 14-1a/2:Ꚁ
    88-c/2:Ꜣ 4-3c/2:Ꜳ b-2/2:Ꝺ 3-8/2:Ꝿ 5:Ꞌ 5-2/2:Ꞑ :Ꞔ 3-12/2:Ꞗ c-e/2:Ꞵ 5-2/2:Ꟈ 7:Ꟑ 6-2/2:Ꟗ 1d:Ꟶ 35d:Ꭓ
    1d-4f:Ꭰ 5382-19:Ａ 4ce-27:𐐀 89-23:𐒰 9c-a:𐕰 2-e:𐕼 2-6:𐖌 2-1:𐖔 704-32:𐲀 bce-1f:𑢠 5581-1f:𖹀
    7aa3-21:𞤀"
  "ßSS ŉʼN ǰJ̌ ΐΪ́ ΰΫ́ ևԵՒ ẖH̱ ẗT̈ ẘW̊ ẙY̊ ẚAʾ ὐΥ̓ ὒΥ̓̀ ὔΥ̓́ ὖΥ̓͂ ᾀἈΙ ᾁἉΙ ᾂἊΙ ᾃἋΙ ᾄἌΙ ᾅἍΙ ᾆἎΙ ᾇἏΙ
    ᾈἈΙ ᾉἉΙ ᾊἊΙ ᾋἋΙ ᾌἌΙ ᾍἍΙ ᾎἎΙ ᾏἏΙ ᾐἨΙ ᾑἩΙ ᾒἪΙ ᾓἫΙ ᾔἬΙ ᾕἭΙ ᾖἮΙ ᾗἯΙ ᾘἨΙ ᾙἩΙ ᾚἪΙ ᾛἫΙ ᾜἬΙ ᾝἭΙ ᾞἮΙ ᾟἯΙ
    ᾠὨΙ ᾡὩΙ ᾢὪΙ ᾣὫΙ ᾤὬΙ ᾥὭΙ ᾦὮΙ ᾧὯΙ ᾨὨΙ ᾩὩΙ ᾪὪΙ ᾫὫΙ ᾬὬΙ ᾭὭΙ ᾮὮΙ ᾯὯΙ ᾲᾺΙ ᾳΑΙ ᾴΆΙ ᾶΑ͂ ᾷΑ͂Ι ᾼΑΙ ῂῊΙ ῃΗΙ
    ῄΉΙ ῆΗ͂ ῇΗ͂Ι ῌΗΙ ῒΪ̀ ΐΪ́ ῖΙ͂ ῗΪ͂ ῢΫ̀ ΰΫ́ ῤΡ̓ ῦΥ͂ ῧΫ͂ ῲῺΙ ῳΩΙ ῴΏΙ ῶΩ͂ ῷΩ͂Ι ῼΩΙ ﬀFF ﬁFI ﬂFL
    ﬃFFI ﬄFFL ﬅST ﬆST ﬓՄՆ ﬔՄԵ ﬕՄԻ ﬖՎՆ ﬗՄԽ"

/-- The lower case mapping, the final sigma left aside. -/
def lowerMap : CaseMap := .ofText
  "41-19:a 66-16:à 2-6:ø 22-2e/2:ā 4-4/2:ĳ 3-e/2:ĺ 3-2c/2:ŋ 2:ÿ -4/2:ź 4:ɓ -2/2:ƃ 2:ɔ :ƈ 2-1:ɖ :ƌ 3:ǝ
    :ə :ɛ :ƒ 2:ɠ :ɣ 2:ɩ :ɨ :ƙ 4:ɯ :ɲ 2:ɵ -4/2:ơ 2:ʀ :ƨ 2:ʃ 3:ƭ 2:ʈ :ư 2-1:ʊ -2/2:ƴ 2:ʒ :ƹ 4:ƽ 8:ǆ :ǆ
    2:ǉ :ǉ 2:ǌ -10/2:ǌ 3-10/2:ǟ 3:ǳ -2/2:ǳ 2:ƕ :ƿ -26/2:ǹ 2:ƞ 2-10/2:ȣ 8:ⱥ :ȼ 2:ƚ :ⱦ 3:ɂ 2:ƀ :ʉ :ʌ
    -8/2:ɇ 122-2/2:ͱ 4:ͷ 9:ϳ 7:ά 2-2:έ 2:ό 2-1:ύ 2-10:α 2-8:σ 24:ϗ 9-16/2:ϙ 6:θ 3:ϸ 2:ϲ :ϻ 3-2:ͻ
    -f:ѐ -1f:а 31-20/2:ѡ a-34/2:ҋ 2:ӏ -c/2:ӂ 3-5e/2:ӑ 3-25:ա b4a-25:ⴀ 2:ⴧ 6:ⴭ 2d3-4f:ꭰ -5:ᏸ 89b-2a:ა
    3-2:ჽ 141-94/2:ḁ a:ß 2-5e/2:ạ a-7:ἀ 9-5:ἐ b-7:ἠ 9-7:ἰ 9-5:ὀ c-6/2:ὑ 9-7:ὠ 19-7:ᾀ 9-7:ᾐ 9-7:ᾠ
    9-1:ᾰ -1:ὰ :ᾳ c-3:ὲ :ῃ c-1:ῐ -1:ὶ d-1:ῠ -1:ὺ :ῥ c-1:ὸ -1:ὼ :ῳ 12a:ω 4:k :å 7:ⅎ 2e-f:ⅰ 14:ↄ
    333-19:ⓐ 731-2f:ⰰ 31:ⱡ 2:ɫ :ᵽ :ɽ 3-4/2:ⱨ 2:ɑ :ɱ :ɐ :ɒ 2:ⱳ 3:ⱶ 9-1:ȿ -62/2:ⲁ 9-2/2:ⳬ 5:ⳳ
    794e-2c/2:ꙁ 14-1a/2:ꚁ 88-c/2:ꜣ 4-3c/2:ꜳ b-2/2:ꝺ 2:ᵹ -8/2:ꝿ 5:ꞌ 2:ɥ 3-2/2:ꞑ 4-12/2:ꞗ 2:ɦ :ɜ :ɡ :ɬ
    :ɪ 2:ʞ :ʇ :ʝ :ꭓ -e/2:ꞵ 2:ꞔ :ʂ :ᶎ -2/2:ꟈ 7:ꟑ 6-2/2:ꟗ 1d:ꟶ 572c-19:ａ 4c6-27:𐐨 89-23:𐓘 9d-a:𐖗 2-e:𐖣
    2-6:𐖳 2-1:𐖻 6eb-32:𐳀 bee-1f:𑣀 5581-1f:𖹠 7aa1-21:𞤢"
  "İi̇"

/-- The title case mapping of the first letters of words whose title case is not their upper case. -/
def titleMap : CaseMap := .ofText
  "1c4:ǅ :ǅ :ǅ :ǈ :ǈ :ǈ :ǋ :ǋ :ǋ 25:ǲ :ǲ :ǲ edd-2a:ა 3-2:ჽ e81-7:ᾈ -7:ᾈ -7:ᾘ -7:ᾘ -7:ᾨ -7:ᾨ 4:ᾼ 9:ᾼ
    7:ῌ 9:ῌ 27:ῼ 9:ῼ"
  "ßSs ևԵւ ᾲᾺͅ ᾴΆͅ ᾷᾼ͂ ῂῊͅ ῄΉͅ ῇῌ͂ ῲῺͅ ῴΏͅ ῷῼ͂ ﬀFf ﬁFi ﬂFl ﬃFfi ﬄFfl ﬅSt ﬆSt ﬓՄն ﬔՄե ﬕՄի ﬖՎն ﬗՄխ"

/-- The characters that have case. -/
def casedChars : CharSet := .ofText
  "41-19 7-19 30 b 5 6-16 2-1e 2-c2 2-3 5-cf 2-23 8-1 1f-4 61 2b-3 3-1 3-3 2 7 2-2 2 2-13 2-52 2-8a
    9-a5 2-25 a-28 b18-25 2 6 3-2a 3-2 2a1-55 3-5 883-8 8-2a 3-2 41-bf 41-115 3-5 3-25 3-5 3-7 2 2
    2 2-1e 3-34 2-6 2 4-2 2-6 4-3 3-5 5-c 6-2 2-6 75 e 11-c 66 5 3-9 2 4-4 7 2 2 2-3 2-5 5 3-3 6-4
    5 12-1f 4-1 332-33 717-e4 7-3 4-1 d-25 2 6 7913-2d 13-1d 85-65 4-3 2-3a 6-1 2 2-4 1c-1 2-2
    336-2a 2-c 8-4f 4f41-6 d-4 40a-19 7-19 4a6-4f 61-23 5-23 75-a 2-e 2-6 2-1 2-a 2-e 2-6 2-1 1c4
    3-2 2-29 2-8 4c6-32 e-32 bae-3f 5561-3f 6581-54 2-46 2-1 3 3-1 3-3 2-b 2 2-6 2-40 2-3 3-7 2-6
    2-1b 2-3 2-4 2 4-6 2-153 3-18 2-18 2-1e 2-18 2-1e 2-18 2-1e 2-18 2-1e 2-18 2-7 735-9 2-13
    9e2-43 7ed-19 7-19 7-19"

/-- The characters that do not separate the letters around them. -/
def caseIgnorables : CharSet := .ofText
  "27 7 c 24 2 48 5 2 5 3-1 1f8-bf 5-1 5 a-1 2 fc-6 d0 6 32-2c 2 2-1 2-1 2 2d c-5 b-a 2 24 b-14 11
    66-7 2-9 2-3 22 2 1f-1a 5c-a 3b-a 5 3 19-17 2c-2 2d 8-1 7-7 2a-39 38 2 5-7 5 4-6 b-1 e 10 3b
    5-3 9 15-1 1b 3-1 3a 5-1 5-1 3-2 4 1f-1 4 c-1 3a 5-4 2-1 5 15-1 17-5 2 3b 3 2-3 9 8-1 c-1 1f
    3e d 33 4 38 2-2 6-2 2-3 8-1 c-1 1e 3b 3 7 6-1 15-1 1d-1 3a-1 5-3 9 15-1 1e 49 8-2 2 5b 3-6
    c-8 63 3-8 a 2-5 4b-1 1c 2 2 38-d 2-4 2-1 6-a 2-23 a 67-3 2-5 2-1 3-1 1a-1 5-2 11-3 e 3-1 7 10
    5f 261-2 3b3-2 1e-1 1f-1 1f-1 41-1 2-6 9 3-a 4 6 2e-4 34 42-1 23 77-2 5-1 a 7-2 dc-1 3 3b 2-6
    2 2 3-7 7-9 3 28 9-1e 32-3 31 2-4 2 6 29-8 d-1 21-3 3-1 2-2 39 2-1 4 2-2 3b-7 3-1 41-5 53-2
    2-c 2-6 5 7 4-1 33-3e e 23-64 1be 2-2 c-2 e-2 e-2 e-1 d-4 9-1 b 3 3-4 32-4 2-9 2 e 11-c 34-20
    b8c-1 72-2 7e 10 61-1f 30 1d6 25-3 4-4 6 5e-5 5e-2 6f17 4e3-5 10f 63-3 2-9 2 1d-3 51-1 f-21 4f
    18-2 68-2 4-1 9 4 5 1a-1 6 98-1 1b-11 e 27-7 1a-a 2f-2 31 3-3 3-1 12 16-1 43-5 3-1 3-1 d 9 24
    c 34 2-2 3-1 6-1 2 1c f-1 6-1 2 65-4 a-2 7a 3 5 4f31 94-10 23e-f 4 d-f 23 3 aa 8 7 c 24 2 30
    2e-1 44 16-2 202 e3 96-4 406-5 2-29 2-8 247-2 2-1 6-3 29-2 5 a6-1 23e-3 184-1 9a-a 32-3 7c
    37-e 2a 3-1 b-2 32-3 3-1 3 5 b 33-2 25-4 2-7 3f d-1 35-8 b-3 3 60-2 3 2-1 7 a1 4-7 16-1 3a-1 4
    26-6 4-4 c4-7 3-2 2 18 55-5 2 5-1 2-1 ef-3 7-1 2-1 1c-1 56-7 3 2-1 6b 2 3-5 2 66-2 3-3 2-4
    104-8 2-1 101-1 2 5 91-3 3-1 5 21-9 29-5 3-3 9 a-5 3-2 2f-c 2-1 197-6 2-5 2 53-15 3-6 2-1 2-1
    7b-5 4 2-1 2-6 2 49-1 4 2 15c-1 153c-8 36b8-4 3c-6 a-3 40c 40-10 41-1 2-1 400c-3 2-6 2-1 c9f-1
    2-3 125d-2d 3-16 221-2 a-f 3-6 1f-3 95-2 7bc-36 5-31 9 f 17-4 2-e 551-6 2-10 3-6 2-1 2-4 106-d
    171 3e-3 5e1-6 6e-7 ab0-4 c0c02 1f-5f 81-ef"

def isCased (c : Char) : Bool :=
  if c.toNat < 0x80 then c.isAlpha else casedChars.contains c

def upperChar (c : Char) : List Char :=
  if c.toNat < 0x80 then [c.toUpper] else upperMap.apply c

/-- Lower case of one character that is no capital sigma. -/
def lowerChar (c : Char) : List Char :=
  if c.toNat < 0x80 then [c.toLower] else lowerMap.apply c

def titleChar (c : Char) : List Char :=
  if c.toNat < 0x80 then [c.toUpper] else (titleMap.image? c).getD (upperMap.apply c)

/-- Whether the nearest character that is not case-ignorable has case. -/
def nextIsCased (cs : List Char) : Bool :=
  match cs.dropWhile caseIgnorables.contains with
  | [] => false
  | c :: _ => isCased c

/-- Lower case of a character between the characters `before` (nearest first) and `after`: a
capital sigma is final when it follows a cased letter and none follows it. -/
def lowerAt (before : List Char) (c : Char) (after : List Char) : List Char :=
  if c = 'Σ' then
    if nextIsCased before && !nextIsCased after then ['ς'] else ['σ']
  else lowerChar c

/-- Lower case of the rest of a text that follows `before`. -/
def lowerFrom (before : List Char) : List Char → List Char
  | [] => []
  | c :: rest => lowerAt before c rest ++ lowerFrom (c :: before) rest

def toLower (s : String) : String := String.ofList (lowerFrom [] s.toList)

def toUpper (s : String) : String := String.ofList (s.toList.flatMap upperChar)

/-- Title case of the rest of a text that follows `before`: letters after a cased one are lowered. -/
def titleFrom (before : List Char) : List Char → List Char
  | [] => []
  | c :: rest =>
    let inside := match before with
      | [] => false
      | b :: _ => isCased b
    (if inside then lowerAt before c rest else titleChar c) ++ titleFrom (c :: before) rest

/-- A text with each word in title case. -/
def toTitle (s : String) : String := String.ofList (titleFrom [] s.toList)

end Workflow.Text
