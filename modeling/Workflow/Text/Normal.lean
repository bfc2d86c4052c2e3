/-
The compatibility normal form of identifiers: two spellings of a name that
differ only in how its characters are encoded are one name.

A character is first replaced by its full decomposition, marks are put into
canonical order, and then a starter takes up the marks after it with which it
has a composite. The tables cover the characters that identifiers may hold;
syllables of the Korean script are computed.
-/
import Workflow.Text.CharSet

namespace Workflow.Text

/-- A run of code points and what it is sent to: the run's first member to `target`, the others in
step when the target is one code point. -/
structure CodeRun where
  first : Nat
  last : Nat
  target : List Nat
  deriving Inhabited

/-- Reads the runs after a code point, each `place>target`, or `target` for the next code point. In
`place=targets` each of consecutive code points is sent to one of the characters. -/
def CodeRun.readAll (read : String → List Nat) (last : Nat) : List String → List CodeRun
  | [] => []
  | entry :: rest =>
    match entry.splitOn "=" with
    | [place, targets] =>
      let first := last + (readPlace place).1
      targets.toList.mapIdx (fun i c => ⟨first + i, first + i, [c.toNat]⟩) ++
        readAll read (first + targets.length - 1) rest
    | _ =>
      let (place, target) := match entry.splitOn ">" with
        | [place, target] => (place, target)
        | _ => ("", entry)
      let (gap, more) := readPlace place
      ⟨last + gap, last + gap + more, read target⟩ :: readAll read (last + gap + more) rest

def CodeRun.ofText (read : String → List Nat) (table : String) : Array CodeRun :=
  (readAll read 0 (tableEntries table)).toArray

/-- The run that holds a code point, among those at positions `lo ≤ i < hi`. -/
def findRun (runs : Array CodeRun) (n lo hi : Nat) : Option CodeRun :=
  if lo < hi then
    let mid := (lo + hi) / 2
    match runs[mid]? with
    | none => none
    | some run =>
      if n < run.first then findRun runs n lo mid
      else if run.last < n then findRun runs n (mid + 1) hi
      else some run
  else none
termination_by hi - lo

def decompositions : Array CodeRun := CodeRun.ofText (fun s => s.toList.map Char.toNat)
  "aa>a b>μ 5>o 6>À Á Â Ã Ä Å 2>Ç È É Ê Ë Ì Í Î Ï 2>Ñ Ò Ó Ô Õ Ö 3>Ù Ú Û Ü
    Ý 3>à á â ã ä å 2>ç è é ê ë ì í î ï 2>ñ ò ó ô õ ö 3>ù ú û ü ý 2>ÿ Ā
    ā Ă ă Ą ą Ć ć Ĉ ĉ Ċ ċ Č č Ď ď 3>Ē ē Ĕ ĕ Ė ė Ę ę Ě ě Ĝ ĝ Ğ ğ Ġ ġ
    Ģ ģ Ĥ ĥ 3>Ĩ ĩ Ī ī Ĭ ĭ Į į İ 2>IJ ij Ĵ ĵ Ķ ķ 2>Ĺ ĺ Ļ ļ Ľ ľ L· l· 3>Ń ń
    Ņ ņ Ň ň ʼn 3>Ō ō Ŏ ŏ Ő ő 3>Ŕ ŕ Ŗ ŗ Ř ř Ś ś Ŝ ŝ Ş ş Š š Ţ ţ Ť ť 3>Ũ
    ũ Ū ū Ŭ ŭ Ů ů Ű ű Ų ų Ŵ ŵ Ŷ ŷ Ÿ Ź ź Ż ż Ž ž s 21>Ơ ơ e>Ư ư 14>DŽ Dž
    dž LJ Lj lj NJ Nj nj Ǎ ǎ Ǐ ǐ Ǒ ǒ Ǔ ǔ Ǖ ǖ Ǘ ǘ Ǚ ǚ Ǜ ǜ 2>Ǟ ǟ Ǡ ǡ
    Ǣ ǣ 3>Ǧ ǧ Ǩ ǩ Ǫ ǫ Ǭ ǭ Ǯ ǯ ǰ DZ Dz dz Ǵ ǵ 3>Ǹ ǹ Ǻ ǻ Ǽ ǽ Ǿ ǿ Ȁ ȁ Ȃ
    ȃ Ȅ ȅ Ȇ ȇ Ȉ ȉ Ȋ ȋ Ȍ ȍ Ȏ ȏ Ȑ ȑ Ȓ ȓ Ȕ ȕ Ȗ ȗ Ș ș Ț ț 3>Ȟ ȟ 7>Ȧ ȧ Ȩ ȩ
    Ȫ ȫ Ȭ ȭ Ȯ ȯ Ȱ ȱ Ȳ ȳ 7d=hɦjrɹɻʁwy 28=ɣlsxʕ 5c-1>̀ 2>̓ ̈́ 30>ʹ 12>Ά · Έ Ή Ί
    2>Ό 2>Ύ Ώ ΐ 1a>Ϊ Ϋ ά έ ή ί ΰ 1a>ϊ ϋ ό ύ ώ 2=βθΥ Ύ Ϋ =φπ 1a>κ -1>ρ 2=Θε 4>Σ
    7>Ѐ Ё 2>Ѓ 4>Ї 5>Ќ Ѝ Ў b>Й 20>й 17>ѐ ё 2>ѓ 4>ї 5>ќ ѝ ў 18>Ѷ ѷ 4a>Ӂ ӂ e>Ӑ ӑ
    Ӓ ӓ 3>Ӗ ӗ 3>Ӛ ӛ Ӝ ӝ Ӟ ӟ 3>Ӣ ӣ Ӥ ӥ Ӧ ӧ 3>Ӫ ӫ Ӭ ӭ Ӯ ӯ Ӱ ӱ Ӳ ӳ Ӵ ӵ 3>Ӹ
    ӹ 8e>եւ 9b>آ أ ؤ إ ئ 4f>اٴ وٴ ۇٴ يٴ 48>ۀ 2>ۂ 11>ۓ 256>ऩ 8>ऱ 3>ऴ 24>क़ ख़ ग़ ज़ ड़ ढ़
    फ़ य़ 6c>ো ৌ 10>ড় ঢ় 2>য় 54>ਲ਼ 3>ਸ਼ 23>ਖ਼ ਗ਼ ਜ਼ 3>ਫ਼ ea>ୈ 3>ୋ ୌ 10>ଡ଼ ଢ଼ 37>ஔ 36>ொ ோ
    ௌ 7c>ై 78>ೀ 7>ೇ ೈ 2>ೊ ೋ 7f>ൊ ോ ൌ 8e>ේ 2>ො ෝ ෞ 55>ํา 80>ໍາ 29>ຫນ ຫມ 66>གྷ a>ཌྷ
    5>དྷ 5>བྷ 5>ཛྷ d>ཀྵ a>ཱི 2>ཱུ ྲྀ ྲཱྀ ླྀ ླཱྀ 8>ཱྀ 12>ྒྷ a>ྜྷ 5>ྡྷ 5>ྦྷ 5>ྫྷ d>ྐྵ 6d>ဦ d6>ნ
    a0a>ᬆ 2>ᬈ 2>ᬊ 2>ᬌ 2>ᬎ 4>ᬒ 29>ᬻ 2>ᬽ 3>ᭀ ᭁ 2>ᭃ 1e9=AÆB 2-1>D Ǝ -7>G 2=OȢPR -1>T =Wa
    -1>ɐ =ᴂb -1>d ə -1>ɛ g 2=kmŋoɔ -1>ᴖ p -1>t =ᴝɯvᴥ -2>β -1>φ =ir -1>u -1>β ρ -1>φ e>н 23=ɒcɕðɜfɟɡɥ
    -2>ɨ =ᵻʝɭᶅʟɱɰ -3>ɲ ɸ -1>ʂ ƫ -1>ʉ ᴜ -1>ʋ z -2>ʐ θ 41>Ḁ ḁ Ḃ ḃ Ḅ ḅ Ḇ ḇ Ḉ ḉ Ḋ ḋ Ḍ ḍ
    Ḏ ḏ Ḑ ḑ Ḓ ḓ Ḕ ḕ Ḗ ḗ Ḙ ḙ Ḛ ḛ Ḝ ḝ Ḟ ḟ Ḡ ḡ Ḣ ḣ Ḥ ḥ Ḧ ḧ Ḩ ḩ Ḫ ḫ
    Ḭ ḭ Ḯ ḯ Ḱ ḱ Ḳ ḳ Ḵ ḵ Ḷ ḷ Ḹ ḹ Ḻ ḻ Ḽ ḽ Ḿ ḿ Ṁ ṁ Ṃ ṃ Ṅ ṅ Ṇ ṇ Ṉ ṉ Ṋ
    ṋ Ṍ ṍ Ṏ ṏ Ṑ ṑ Ṓ ṓ Ṕ ṕ Ṗ ṗ Ṙ ṙ Ṛ ṛ Ṝ ṝ Ṟ ṟ Ṡ ṡ Ṣ ṣ Ṥ ṥ Ṧ
    ṧ Ṩ ṩ Ṫ ṫ Ṭ ṭ Ṯ ṯ Ṱ ṱ Ṳ ṳ Ṵ ṵ Ṷ ṷ Ṹ ṹ Ṻ ṻ Ṽ ṽ Ṿ ṿ Ẁ ẁ Ẃ ẃ Ẅ
    ẅ Ẇ ẇ Ẉ ẉ Ẋ ẋ Ẍ ẍ Ẏ ẏ Ẑ ẑ Ẓ ẓ Ẕ ẕ ẖ ẗ ẘ ẙ aʾ ṡ 5>Ạ ạ Ả ả Ấ ấ Ầ
    ầ Ẩ ẩ Ẫ ẫ Ậ ậ Ắ ắ Ằ ằ Ẳ ẳ Ẵ ẵ Ặ ặ Ẹ ẹ Ẻ ẻ Ẽ ẽ Ế ế
    Ề ề Ể ể Ễ ễ Ệ ệ Ỉ ỉ Ị ị Ọ ọ Ỏ ỏ Ố ố Ồ ồ Ổ ổ Ỗ ỗ Ộ ộ
    Ớ ớ Ờ ờ Ở ở Ỡ ỡ Ợ ợ Ụ ụ Ủ ủ Ứ ứ Ừ ừ Ử ử Ữ ữ Ự ự Ỳ
    ỳ Ỵ ỵ Ỷ ỷ Ỹ ỹ 7>ἀ ἁ ἂ ἃ ἄ ἅ ἆ ἇ Ἀ Ἁ Ἂ Ἃ Ἄ Ἅ Ἆ Ἇ ἐ ἑ ἒ ἓ
    ἔ ἕ 3>Ἐ Ἑ Ἒ Ἓ Ἔ Ἕ 3>ἠ ἡ ἢ ἣ ἤ ἥ ἦ ἧ Ἠ Ἡ Ἢ Ἣ Ἤ Ἥ Ἦ Ἧ ἰ
    ἱ ἲ ἳ ἴ ἵ ἶ ἷ Ἰ Ἱ Ἲ Ἳ Ἴ Ἵ Ἶ Ἷ ὀ ὁ ὂ ὃ ὄ ὅ 3>Ὀ Ὁ Ὂ Ὃ
    Ὄ Ὅ 3>ὐ ὑ ὒ ὓ ὔ ὕ ὖ ὗ 2>Ὑ 2>Ὓ 2>Ὕ 2>Ὗ ὠ ὡ ὢ ὣ ὤ ὥ ὦ ὧ Ὠ
    Ὡ Ὢ Ὣ Ὤ Ὥ Ὦ Ὧ ὰ ά ὲ έ ὴ ή ὶ ί ὸ ό ὺ ύ ὼ ώ 3>ᾀ ᾁ ᾂ ᾃ ᾄ
    ᾅ ᾆ ᾇ ᾈ ᾉ ᾊ ᾋ ᾌ ᾍ ᾎ ᾏ ᾐ ᾑ ᾒ ᾓ ᾔ ᾕ ᾖ ᾗ ᾘ
    ᾙ ᾚ ᾛ ᾜ ᾝ ᾞ ᾟ ᾠ ᾡ ᾢ ᾣ ᾤ ᾥ ᾦ ᾧ ᾨ ᾩ ᾪ ᾫ ᾬ
    ᾭ ᾮ ᾯ ᾰ ᾱ ᾲ ᾳ ᾴ 2>ᾶ ᾷ Ᾰ Ᾱ Ὰ Ά ᾼ 2>ι 4>ῂ ῃ ῄ 2>ῆ ῇ Ὲ Έ Ὴ Ή ῌ
    4>ῐ ῑ ῒ ΐ 3>ῖ ῗ Ῐ Ῑ Ὶ Ί 5>ῠ ῡ ῢ ΰ ῤ ῥ ῦ ῧ Ῠ Ῡ Ὺ Ύ Ῥ 6>ῲ ῳ ῴ
    2>ῶ ῷ Ὸ Ό Ὼ Ώ ῼ 75>i e>n 11=aeoxəh -3>k p -1>s 66>C 5>Ɛ 3=gHHHhħIILl 2>N 4-2>P =RR 7>Z
    2>Ω 2>Z 2>K Å -1>B 2>e -1>E 2=Mo -3>א i 3=πγΓΠ 6>D -1>d -1>i 17>I II III IV V VI VII VIII IX X
    XI XII L -1>C =Mi ii iii iv v vi vii viii ix x xi xii l -1>c m afd=jV f2>ⵡ 2c9>十 -1>卄 12>が 2>ぎ
    2>ぐ 2>げ 2>ご 2>ざ 2>じ 2>ず 2>ぜ 2>ぞ 2>だ 2>ぢ 3>づ 2>で 2>ど 7>ば ぱ 2>び ぴ 2>ぶ ぷ 2>べ ぺ
    2>ぼ ぽ 17>ゔ a>ゞ より d>ガ 2>ギ 2>グ 2>ゲ 2>ゴ 2>ザ 2>ジ 2>ズ 2>ゼ 2>ゾ 2>ダ 2>ヂ 3>ヅ 2>デ 2>ド
    7>バ パ 2>ビ ピ 2>ブ プ 2>ベ ペ 2>ボ ポ 17>ヴ 3>ヷ ヸ ヹ ヺ 4>ヾ コト 32-1>ᄀ =ᆪᄂ -1>ᆬ -2>ᄃ -5>ᆰ ᄚ
    -2>ᄆ ᄡ -9>ᄉ -14>ᅡ ᅠ -1>ᄔ -1>ᇇ =ᇌᇎᇓᇗᇙᄜᇝᇟ -1>ᄝ ᄠ -1>ᄢ =ᄧᄩ -4>ᄫ =ᄲᄶᅀᅇᅌ -1>ᇱ -2>ᅗ -1>ᆄ ᆈ -1>ᆑ =ᆔᆞᆡ
    750e=ъь d3>ꝯ 82=CFQ 4=Ħœ 363=ꜧꬷɫꭒ a>ʍ
    4d97=豈更車賈滑串句龜龜契金喇奈懶癩羅蘿螺裸邏樂洛烙珞落酪駱亂卵欄爛蘭鸞嵐濫藍襤拉臘蠟廊朗浪狼郎來冷勞擄櫓爐盧老蘆虜路露魯鷺碌祿綠菉錄鹿論壟弄籠聾牢磊賂雷壘屢樓淚漏累縷陋勒肋
    =凜凌稜綾菱陵讀拏樂諾丹寧怒率異北磻便復不泌數索參塞省葉說殺辰沈拾若掠略亮兩凉梁糧良諒量勵呂女廬旅濾礪閭驪麗黎力曆歷轢年憐戀撚漣煉璉秊練聯輦蓮連鍊列劣咽烈裂說廉念捻殮簾獵令囹寧嶺
    =怜玲瑩羚聆鈴零靈領例禮醴隸惡了僚寮尿料樂燎療蓼遼龍暈阮劉杻柳流溜琉留硫紐類六戮陸倫崙淪輪律慄栗率隆利吏履易李梨泥理痢罹裏裡里離匿溺吝燐璘藺隣鱗麟林淋臨立笠粒狀炙識什茶刺切度拓糖
    =宅洞暴輻行降見廓兀嗀 3>塚 2>晴 3=凞猪益礼神祥福靖精羽 2>蘒 2>諸 3=逸都 4=飯飼館鶴郞隷侮僧免勉勤卑喝嘆器塀墨層屮悔慨憎懲敏既暑梅海渚漢煮爫琢碑社祉祈祐祖祝 -1>禍
    =穀突節練縉繁署者臭艹艹著褐視謁謹賓贈辶逸難響頻恵𤋮舘
    3=並况全侀充冀勇勺喝啕喙嗢塚墳奄奔婢嬨廒廙彩徭惘慎愈憎慠懲戴揄搜摒敖晴朗望杖歹殺流滛滋漢瀞煮瞧爵犯猪瑱甆画瘝瘟益盛直睊着磌窱節类絛練缾者荒華蝹襁覆視調諸請謁諾諭謹變贈輸遲醙鉶陼
    =難靖韛響頋頻鬒龜𢡊𢡄𣏕㮝䀘䀹𥉉𥳐𧻓齃龎 27>ff fi fl ffi ffl st st d>մն մե մի վն մխ 6>יִ 2>ײַ =עא -1>ד -2>כ =רת 2>שׁ
    שׂ שּׁ שּׂ אַ אָ אּ בּ גּ דּ הּ וּ זּ 2>טּ יּ ךּ כּ לּ 2>מּ 2>נּ סּ 2>ףּ פּ 2>צּ קּ רּ שּ תּ וֹ
    בֿ כֿ פֿ אל =ٱٱٻٻٻٻپپپپڀڀڀڀٺٺٺٺٿٿٿٿٹٹٹٹڤڤڤڤڦڦڦڦڄڄڄڄڃڃڃڃچچچ -1>چ
    =ڇڇڇڍڍڌڌڎڎڈڈژژڑڑککککگگگگڳڳڳڳڱڱڱڱں -1>ں =ڻڻڻ ۀ ۀ =ہہہہھھھھےے ۓ ۓ 22=ڭڭڭڭۇۇۆۆۈۈ ۇٴ
    =ۋۋۅۅۉۉېېېېىى ئا ئا ئە ئە ئو ئو ئۇ ئۇ ئۆ ئۆ ئۈ ئۈ ئې ئې ئې ئى ئى ئى =یییی ئج
    ئح ئم ئى ئي بج بح بخ بم بى بي تج تح تخ تم تى تي ثج ثم ثى ثي جح جم حج حم خج خح خم سج سح سخ سم
    صح صم ضج ضح ضخ ضم طح طم ظم عج عم غج غم فج فح فخ فم فى في قح قم قى قي كا كج كح كخ كل كم كى كي لج
    لح لخ لم لى لي مج مح مخ مم مى مي نج نح نخ نم نى ني هج هم هى هي يج يح يخ يم يى يي ذٰ رٰ ىٰ 7>ئر
    ئز ئم ئن ئى ئي بر بز بم بن بى بي تر تز تم تن تى تي ثر ثز ثم ثن ثى ثي فى في قى قي كا كل كم
    كى كي لم لى لي ما مم نر نز نم نن نى ني ىٰ ير يز يم ين يى يي ئج ئح ئخ ئم ئه بج بح بخ بم به
    تج تح تخ تم ته ثم جح جم حج حم خج خم سج سح سخ سم صح صخ صم ضج ضح ضخ ضم طح ظم عج عم غج غم فج فح فخ
    فم قح قم كج كح كخ كل كم لج لح لخ لم له مج مح مخ مم نج نح نخ نم نه هج هم هٰ يج يح يخ يم يه ئم
    ئه بم به تم ته ثم ثه سم سه شم شه كل كم لم نم نه يم يه ـَّ ـُّ ـِّ طى طي عى عي غى غي سى سي شى شي
    حى حي جى جي خى خي صى صي ضى ضي شج شح شخ شم شر سر صر ضر طى طي عى عي غى غي سى سي شى شي حى حي جى جي
    خى خي صى صي ضى ضي شج شح شخ شم شر سر صر ضر شج شح شخ شم سه شه طم سج سح سخ شج شح شخ طم ظم اً اً
    13>تجم تحج تحج تحم تخم تمج تمح تمخ جمح جمح حمي حمى سحج سجح سجى سمح سمح سمج سمم سمم صحح صحح صمم
    شحم شحم شجي شمخ شمخ شمم شمم ضحى ضخم ضخم طمح طمح طمم طمي عجم عمم عمم عمى غمم غمي غمى فخم فخم قمح
    قمم لحم لحي لحى لجج لجج لخم لخم لمح لمح محج محم محي مجح مجم مخج مخم 3>مجخ همج همم نحم نحى نجم
    نجم نجى نمي نمى يمم يمم بخي تجي تجى تخي تخى تمي تمى جمي جحى جمى سخى صحي شحي ضحي لجي لمي يحي يجي
    يمي ممي قمي نحي قمح لحم عمي كمي نجح مخي لجم كمم لجم نجح جحي حجي مجي فمي بحي كمم عجم صمم سخي نجي
    29>صلے قلے الله اكبر محمد صلعم رسول عليه وسلم صلى 3a=__ 19=___ 22>ـً 6>ـَ 2>ـُ 2>ـِ 2>ـّ 2>ـْ ء
    آ آ أ أ ؤ ؤ إ إ ئ ئ ئ ئ ا -1>ا =بب -1>ب -1>ة =تت -1>ت =ثث -1>ث =جج -1>ج =حح -1>ح =خخ
    -1>خ -1>د -1>ذ -1>ر -1>ز =سس -1>س =شش -1>ش =صص -1>ص =ضض -1>ض =طط -1>ط =ظظ -1>ظ =عع -1>ع =غغغففف
    -1>ف =قق -1>ق =كك -1>ك =لل -1>ل =مم -1>م =نن -1>ن =هه -1>ه -1>و -1>ى =ييي لآ لآ لأ لأ لإ
    لإ لا لا 14-9>0 8-19>A 5>_ 2-19>a c=ヲァィゥェォャュョッーアイウエ -1>オ =キクケコサシスセソタチツテト -5>ナ =ヒフヘホ -4>マ =ヤユ
    -5>ヨ =ワン -1>゙ ᅠ -1>ᄀ =ᆪᄂ -1>ᆬ -2>ᄃ -5>ᆰ ᄚ -2>ᄆ ᄡ -9>ᄉ 4-5>ᅡ 3-5>ᅧ 3-5>ᅭ 3-2>ᅳ 7a5-1>ː =æʙɓ
    2=ʣꭦʥʤ -1>ɖ =ᶑɘɞʩɤɢɠʛħʜɧʄ -1>ʪ =ɬ𝼄ꞎɮ𝼅ʎ𝼆ø -1>ɶ =qɺ𝼈 -1>ɽ =ʀʨʦꭧʧʈⱱ 2>ʏ -1>ʡ ʘ -2>ǀ =𝼊𝼞 8e0>𑂚 2>𑂜
    f>𑂫 83>𑄮 𑄯 21c>𑍋 𑍌 16f>𑒻 𑒼 2>𑒾 fc>𑖺 𑖻 37d>𑤸 bac8-19>A -19>a -19>A -6>a 2-11>i -19>A
    -19>a A 2-1>C 3>G 3-1>J 3-3>N 2-7>S -3>a 2>f 2-6>h 2-a>p -19>A -19>a -1>A 2-3>D 3-7>J 2-6>S
    2-19>a -1>A 2-3>D 2-4>I 2>O 4-6>S 2-19>a -19>A -19>a -19>A -19>a -19>A -19>a -19>A -19>a -19>A
    -19>a -19>A -19>a =ıȷ 3-10>Α Θ -6>Σ 2-18>α 2=εθκφρπ -10>Α Θ -6>Σ 2-18>α 2=εθκφρπ -10>Α Θ -6>Σ
    2-18>α 2=εθκφρπ -10>Α Θ -6>Σ 2-18>α 2=εθκφρπ -10>Α Θ -6>Σ 2-18>α 2=εθκφρπ -1>Ϝ 3-9>0 -9>0 -9>0
    -9>0 -9>0 1601-1>ا =جد 2=وزحطي -3>ك =سعفصقرش -1>ت =خذضظغٮںڡٯ 2=بج 2>ه 3>ح 2>ي -3>ك =سعفصق 2>ش
    -1>ت خ 2>ض 2>غ 7>ج 5>ح 2>ي 2>ل 2=نسع 2=صق 2>ش 3>خ 2>ض 2>غ 2>ں 2>ٯ 2=بج 2>ه 3=حطيك 2-1>م =سعفصق
    2>ش -1>ت خ 2=ضظغٮ 2>ڡ 2-1>ا =جد -1>ه =زحطي 2-2>ل =سعفصقرش -1>ت =خذضظغ 6=بجد 2=وزحطي 2-2>ل
    =سعفصقرش -1>ت =خذضظغ d35-9>0 fc07=丽丸乁𠄢你侮侻倂偺備僧像㒞𠘺免兔兤具𠔜㒹內再𠕋冗冤仌冬况𩇟凵刃㓟刻剆割剷㔕勇勉勤勺 -1>包
    =北卉卑博即卽卿卿卿𠨬灰及叟𠭣叫叱吆咞吸呈周咢哶唐啓啣善善喙喫喳嗂圖嘆圗噑噴切壮城埴堍型堲報墬𡓤売壷夆多夢奢𡚨𡛪姬娛娧姘婦㛮㛼嬈嬾嬾𡧈寃寘寧寳𡬘寿将当尢㞁屠屮峀岍𡷤嵃𡷦嵮嵫嵼 -1>巡
    =㠯巽帨帽幩㡢𢆃㡼庰庳庶廊𪎒廾𢌱𢌱舁弢弢㣇𣊸𦇚形彫㣣徚忍志忹悁㤺㤜悔𢛔惇慈慌慎慌慺憎憲憤憯懞懲懶成戛扝抱拔捐𢬌挽拼捨掃揤𢯱搢揅掩㨮摩摾撝摷㩬敏敬𣀊旣書晉㬙暑㬈㫤冒冕最暜肭䏙朗望朡
    =杞杓𣏃㭉柺枅桒梅𣑭梎栟椔㮝楂榣槪檨𣚣櫛㰘次𣢧歔㱎歲殟 -1>殺
    =𣪍𡴋𣫺汎𣲼沿泍汧洖派海流浩浸涅𣴞洴港湮㴳滋滇𣻑淹潮𣽞𣾎濆瀹瀞瀛㶖灊災灷炭𠔥煅𤉣熜𤎫爨爵牐𤘈犀犕𤜵𤠔獺王㺬玥㺸㺸瑇瑜瑱璅瓊㼛甤𤰶甾𤲒異𢆟瘐𤾡𤾸𥁄㿼䀈直𥃳𥃲𥄙𥄳 -1>眞
    =真睊䀹瞋䁆䂖𥐝硎碌磌䃣𥘦祖𥚚𥛅福秫䄯穀穊穏𥥼𥪧𥪧竮䈂𥮫篆築䈧𥲀糒䊠糨糣紀𥾆絣䌁緇縂繅䌴𦈨𦉇䍙𦋙罺𦌾羕翺者𦓚𦔣聠𦖨聰𣍟䏕育脃䐋脾媵𦞧𦞵𣎓𣎜舁舄辞䑫芑芋芝劳花芳芽苦𦬼若茝荣莭茣莽菧
    =著荓菊菌菜𦰶𦵫𦳕䔫蓱蓳蔖𧏊蕤𦼬䕝䕡𦾱𧃒䕫虐虜虧虩蚩蚈蜎蛢蝹蜨蝫螆䗗蟡蠁䗹衠衣𧙧裗裞䘵裺㒻𧢮𧥦䚾䛇誠諭變豕𧲨貫賁贛起𧼯𠠄跋趼跰𠣞軔輸𨗒𨗭邔郱鄑𨜮鄛鈸 -1>鋗
    =鉼鏹鐕𨯺開䦕閷𨵷䧦雃嶲霣𩅅𩈚䩮䩶韠𩐊䪲𩒖頋頋頩𩖶飢䬳餩馧駂駾䯎𩬰鬒鱀鳽䳎䳭鵧𪃎䳸𪄅𪈎𪊑麻䵖黹黾鼅鼏鼖鼻𪘀"

/-- The combining classes of marks. -/
def combiningClasses : Array CodeRun := CodeRun.ofText (fun s => [hexValue s.toList])
  "300-14>e6 e8 -3>dc e8 d8 -4>dc -1>ca -3>dc -1>ca -a>dc -4>1 -3>dc -7>e6 f0 e6 -2>dc -2>e6 -1>dc
    2-2>e6 -3>dc e6 e8 -1>dc e6 e9 -1>ea e9 -1>ea e9 -c>e6 114-4>e6 10a>dc -3>e6 dc -2>e6 de dc
    -5>e6 -5>dc -1>e6 dc -1>e6 de e4 e6 a b c d e f 10 11 12 -1>13 14 15 16 2>17 2>18 19 2>e6 dc
    2>12 49-7>e6 1e 1f 20 31>1b 1c 1d 1e 1f 20 21 22 -1>e6 -1>dc -4>e6 dc -1>e6 dc 11>23 66-6>e6
    3-3>e6 dc e6 3-1>e6 2>dc -1>e6 dc 24>24 1f>e6 dc -1>e6 dc -1>e6 -2>dc e6 -1>dc e6 dc -2>e6 dc
    e6 dc e6 dc e6 dc -1>e6 a1-6>e6 dc e6 a>dc 19-3>e6 2-8>e6 2-2>e6 2-4>e6 2c-2>dc 3d>e6 -2>dc
    -3>e6 2b-4>e6 -4>dc -d>e6 2>dc -1>e6 dc -1>e6 dc -2>e6 -2>dc 1b 1c 1d -2>e6 dc -1>e6 -1>dc
    -4>e6 3d>7 11>9 4>e6 dc -1>e6 68>7 11>9 31>e6 3e>7 11>9 6f>7 11>9 6f>7 11>9 80>9 6f>7 11>9
    8>54 5b 66>7 11>9 6e-1>9 11>9 7d>9 6e-1>67 9 e-3>6b 6d-1>76 9 e-3>7a 4d-1>dc 1c>dc 2>dc 2>d8
    38>81 82 2>84 6-3>82 3>82 2-1>e6 9 2-1>e6 3f>dc 71>7 2-1>9 53>dc 2d0-2>e6 3b5-1>9 1f>9 9e>9
    b>e6 cc>e4 90>de e6 dc dc>e6 dc 48>9 15-7>e6 3>dc 31-4>e6 -5>dc -1>e6 dc 2-1>dc -1>e6 -1>dc
    -4>e6 dc -3>e6 66>7 10>9 27>e6 dc -6>e6 37-1>9 3b>7 c-1>9 44>7 99-2>e6 2>1 -4>dc -1>e6 -3>dc
    e6 2-6>1 5>dc 7>e6 4-1>e6 c7-1>e6 dc -6>e6 dc -1>e6 ea d6 dc ca -24>e6 e8 -1>e4 dc da e6 e9 dc
    e6 dc 2d1-1>e6 -1>1 -3>e6 -2>1 -1>e6 5>e6 4-1>1 e6 dc e6 -1>1 -3>dc e6 bff-2>e6 8e>9 61-1f>e6
    22b>da e4 e8 de -1>e0 6a-1>8 75d5>e6 5-9>e6 21-1>e6 51-1>e6 115>9 26>9 98>9 1c-11>e6 3a-2>dc
    26>9 60>7 d>9 f0>e6 2-1>e6 dc 3-1>e6 6-1>e6 2>e6 35>9 f7>9 4f31>1a 302-6>e6 -6>dc -1>e6 3ce>dc
    e3>dc 96-4>e6 693>dc 2>e6 29>e6 1 dc 5>9 a6>e6 dc 23e-3>e6 184-1>e6 9a-1>dc -2>e6 dc e6 -3>dc
    32>e6 dc e6 dc c1>9 2a>9 f>9 3a>9 7 46-2>e6 31-1>9 3f>7 4d>9 a>7 6b>9 7 b3>7 9 51-1>7 11>9
    19-6>e6 4-4>e6 ce>9 4>7 18>e6 64>9 7 fc>9 7 7f>9 77>9 7 74>9 10e>9 7 103-1>9 5>7 9d>9 54>9
    13>9 52>9 1a6>9 103>7 2-1>9 52>9 4d59-4>1 3c-6>e6 4ba-1>6 4cad>1 14c7-1>d8 -2>1 4>e2 -4>d8
    9-7>dc 3-4>e6 -1>dc 1f-3>e6 95-2>e6 dbc-6>e6 2-10>e6 3-6>e6 2-1>e6 2-4>e6 106-6>e6 178>e6
    3e-3>e6 5e1-6>dc 6e-5>e6 7"

/-- The decomposition of a Korean syllable into its two or three letters. -/
def syllableLetters (n : Nat) : List Nat :=
  let s := n - 0xac00
  let letters := [0x1100 + s / 588, 0x1161 + s % 588 / 28]
  if s % 28 = 0 then letters else letters ++ [0x11a7 + s % 28]

/-- The full decomposition of a code point. -/
def decompose (n : Nat) : List Nat :=
  if n < 0x80 then [n]
  else if 0xac00 ≤ n ∧ n ≤ 0xd7a3 then syllableLetters n
  else
    match findRun decompositions n 0 decompositions.size with
    | none => [n]
    | some run =>
      match run.target with
      | [t] => [t + (n - run.first)]
      | target => target

/-- The code points that are a starter, or such a code point again, and a mark. -/
def composed : List Nat :=
  let places := CharSet.ofText
    "c0-5 2-8 2-5 3-4 3-5 2-8 2-5 3-4 2-10 3-13 3-8 4-3 2-5 5-5 4-5 3-11 3-16 22-1 e-1 1d-f 2-5 3-a
    4-1 3-23 3-1 7-d 153 2-2 2 2-2 1a-6 1a-4 32-1 2 4 5-2 b 20 17-1 2 4 5-2 18-1 4a-1 e-3 3-1 3-5
    3-5 3-b 3-1 129-4 9a 2 11 256 8 3 97-1 17c 3-1 48 36-2 7c 78 7-1 2-1 7f-2 8e 2-2 248 ae0 2 2 2
    2 4 29 2 3-1 2 2bd-99 7-59 7-15 3-5 3-25 3-5 3-7 2 2 2 2-11 2 2 2 2 2 2 4-34 2-4 2 6-2 2-2 2 2
    4-2 4-4 6-2 2-6 2 6-2 2-2 2 2 1050 2 2 2 2 2 2 2 2 2 2 2 3 2 2 7-1 2-1 2-1 2-1 2-1 17 a e 2 2
    2 2 2 2 2 2 2 2 2 3 2 2 7-1 2-1 2-1 2-1 2-1 17 3-3 4 df9c 2 f 83-1 21c-1 16f-1 2 fc-1 37d"
  places.ranges.toList.flatMap fun (first, last) => List.range' first (last + 1 - first)

/-- The composites of a starter with a mark: what stands before the last code of a decomposition is
one code, or a composite itself. -/
def composites : List (Nat × Nat × Nat) :=
  composed.map fun n =>
    let codes := decompose n
    let starter := match codes.dropLast with
      | [starter] => starter
      | codes => (composed.find? fun m => decompose m = codes).getD 0
    (starter, codes.getLastD 0, n)

/-- The combining class of a code point; zero for starters. -/
def combiningClass (n : Nat) : Nat :=
  if n < 0x300 then 0
  else
    match findRun combiningClasses n 0 combiningClasses.size with
    | some run => run.target.headD 0
    | none => 0

/-- The composite of a starter with a following code point. -/
def composite? (a b : Nat) : Option Nat :=
  if 0x1100 ≤ a ∧ a < 0x1113 ∧ 0x1161 ≤ b ∧ b < 0x1176 then
    some (0xac00 + ((a - 0x1100) * 21 + (b - 0x1161)) * 28)
  else if 0xac00 ≤ a ∧ a ≤ 0xd7a3 ∧ (a - 0xac00) % 28 = 0 ∧ 0x11a7 < b ∧ b < 0x11c3 then
    some (a + (b - 0x11a7))
  else (composites.find? fun (x, y, _) => x = a ∧ y = b).map (·.2.2)

/-- Puts a mark in its place among marks in reverse order: after those of its class or a lower one. -/
def insertMark (n : Nat) : List Nat → List Nat
  | [] => [n]
  | m :: rest =>
    if combiningClass n < combiningClass m then m :: insertMark n rest else n :: m :: rest

/-- Canonical order: each run of marks sorted by class; `marks` holds the current run, reversed. -/
def orderMarks (marks : List Nat) : List Nat → List Nat
  | [] => marks.reverse
  | n :: rest =>
    if combiningClass n = 0 then marks.reverse ++ n :: orderMarks [] rest
    else orderMarks (insertMark n marks) rest

/-- Composition: `starter` takes up the marks that compose with it; `kept` holds those that do not,
reversed. A mark is blocked by a kept one of its class or a higher one. -/
def composeFrom (starter : Nat) (kept : List Nat) : List Nat → List Nat
  | [] => starter :: kept.reverse
  | n :: rest =>
    let blocked := match kept with
      | [] => false
      | k :: _ => combiningClass k = 0 ∨ combiningClass n ≤ combiningClass k
    match if blocked then none else composite? starter n with
    | some c => composeFrom c kept rest
    | none =>
      if combiningClass n = 0 then starter :: kept.reverse ++ composeFrom n [] rest
      else composeFrom starter (n :: kept) rest

/-- The compatibility normal form of an identifier. -/
def normalName (cs : List Char) : List Char :=
  if cs.all fun c => c.toNat < 0x80 then cs
  else
    match orderMarks [] (cs.flatMap fun c => decompose c.toNat) with
    | [] => []
    | n :: rest => (composeFrom n [] rest).map Char.ofNat

end Workflow.Text
