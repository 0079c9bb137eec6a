/-!
# Tables of normal forms

Decompositions and combining classes of characters, as Unicode 14.0 assigns them. Hangul syllables are left out: they are computed. The tables are packed (`SourceAtlas.Text.Packed`), and the functions on texts are in `SourceAtlas.Text.NormalForm`.
-/

set_option autoImplicit false

namespace SourceAtlas.Text.NormalTable

/-- The length of the tables. -/
def length : Nat := 40833

/-- Two tables with a bar between them, and the entries of each with semicolons between them. The
first has compatibility decompositions: a code point, which is left out where it follows the one
before, then the code points that it is decomposed into. Two code points stand behind a hyphen if
they do not compose. The second has combining classes other than zero: a range of code points, then
their class. -/
def packed : String := "0v)%XtAl=~m>GCOLOAAeF39m>?='<wasml(r1Ah[R=xmsMT>J&<=uI/<>jY*'y:/9weO<[>T2j`u6*|f)lRKXUm(YP>?!~O~qi<Y!;P $Mh5M$m[>P51C$q~RKj%(mmy|_n&Q$Ele7z3Q)1JOh:yRYn`(&*e%AC8vY8S4;1!OK~fV+`ImmLhXH;*gF@a2H8B&1'Q:>G.y5efQ`LxA5t1++9S8Zeqch]pA*n?T _BSq!*)BHV6[;siirfIppR_B(+VlCFCE]nwzLyJRV~qM$xWc90RaYTI@V'1]esBxah5N5)`_u?mJ'liVo ,*zi=k6MOTlJ2/RCGQK!6x%B.GTG10~ah9^a8hu38i KTknjFvZ~AF;d`y@WqTJ.x6vDOZMt<UlED0 5*fB xDP3X$)f;+VjvSxfR~A[t_/C:swykf5*ZNqPb5@n?0%?eW/JRD6dzhaUC'EkiR@/Cx`OE Gql)[`U:yLB^^HEo]IoyD15<eL4koeC_aRrz8bFi0])gu0^>Mw5'JEv0kMo35]oN]1*Ee`['V<8Ns5$Md?5Y'aU 2|[` dWRhp_zp?8f>%gy2~t8RGCPmq%&!>~5dp Zb.?vSX<618B?;VdcW%Gf'Zc$6vj*MlkR!p9HFn^XCq3<J@rxD9J+~Oxx)i:&9'nLm ZQ@z4sf4oYdOUJ>;B1mJBW;~=g:PG@nDu<*5?UL8Zg[<7MSGjvVeCG&E1/gP>u)B@:i+y@VdL%O8Rw>k6aw]c=D/x &6%mCrPq:0c?*,zJ>c^BmlP3s(T:nJl6Mp*)4%bM&?WNrWLW<qE+6B?I/T`;zJb@^~kuo7Dz3<W)=YnzNkvA$DBnc!>Pb85A.A;vI3AX/UZ4w??2@I|^jB,$'sa]ETY_MU.86rWr*q%bX7$ZD7r[FI['PL'WI4O`MW/m%'uRFPX%zjBq~R%V70$D9<~+Q'86|~%&O7.iG3Gj$:a17ApMi:S6W.P[`9E?rS
9bS,N'/B,L*D$qpUYbF>lT8:&$V7UEXCrx$)Bn,O`X$qajC:0)XSl4W,0x;RYv:9<R[GZ:Qsg;1>PuqZr/T?d*l:Ml$ t:s$,m>JQL,ba)g?)gmq6>Bn]WGA>%Rs*%gWSQ58VS%m7,YXk8e7c%8i^PLAdbsA~v+ziDHWO4/?fA0=:0x!!XWI0`dU,*fzGlEO+kYBg<5!Y+8s~)CwLW'JXvnE&67Y%vPG~ar_4OL=QTqWhBy5uO^IIO|t T<8Cr]662xD6~+L>|%Shv5|Jl8h=pbo!z_(;RD)[t^9mSujBIaQOMu!^E1<gr~,]NL7Zo<VFW4FCX&y :u+(p?%_E?a.vr6yz4Qd_rZN@K2y0;[l6mAg@77W]'jD~K7XS?eX0^O!2h]m8BWES(W:79GBhMF85@se>$,4ZJ<0 j YIc6.f%,KIs|*!4cTa1V.^*!aq1h'jz0CdwW0Sejn6V9`&TMEhQ.)Bz0y:H|6q*/88h.*I,h=s1~ge3uGiNMB_d!Z,+GSy7S@1MQk <^J3RrL$X)yDmN3>@zn/!8KjL+@puPT(cGAs)m$c3+xRx(VP!WWuA=Cy^MGXbX4^308+Jq@0Wr2_.`3zP6ga$miyiUMtHl+_4FsEc>V,@+%EI>:6^HL|)BNA@PT>S&v;HYyq@Y|Vyh5'BoG<l2j^9>!bp'Gb(0>x5krQ?x5HC9V4=z:UTN@P+Wps7?DO1H,_iJ!nt$Y;p6/2%C*yrA<+%E$neFux''(V0)n)iyQT]YhGvQPTb;]<B[Mh)z:j,>jRtYLnFtaE6RJ?MCCmX5H3I6OsbK$< $ARV,4X9rN.w^W7Uel|b/4Qy&3BRiU<v!<@&2zJUQ|:&X!/1HmluyMW6Dg0ZY)q1UP8TSqUqa(epPHH+HR_ofyeoTc=s4C|@e]v$csr3k+>`YpFm|Ev0@XZfhx*_fI$SC37N`(y;P5lBaiVYgl~R>$Q=cvGbWE*&24Jjnp*3|l[=Kz(/A!cQvfAC3A7ZQI&'/
BbQ*D^'ydy)1Xlu~^, yy(8ZCryy[B,gJ:@=rM|Car`1)FjPaJ|&^wS+[jgwAJ@E3C=kgQ)vNU7!)_2Lqe|3K1t()F8Y|u69a,bmtjH<R+dwRF4,w7$@wXXTr~1yTKlc]D9|m&,)(+Wsd]rLY[t>8Cy3UPH5)RW U|3E~1Abi6 HzdL/z%wvm.v8<4<`D(FrT3w:0:3>u EA>.]_|gL+.l,2t!+Qm 57ovTC[:wx&|gFamX<,`ZDRy.k;,,s,RoFE2Ff=O!EE]]^;$z@yUeyNI ^E,F|%rbS>87z`p7G 8Z|[eSnkGQNQy/>RQ^frT'%icUlIAYhv`6KtDvc9xBy;ZmL(sY4Fc>[:gMGMw_H1SRe|Ef,;kwWha o8$4Mw/U+x4)A3??IMjG2]z^aFM@XG=%Qq`qY|K xj;,aV`UJ6NTx7AUZZd+,Q9uy'9_%!?av*ae)yPv?7GH<!lGBAm2yft_v^@oLJe,nrR:6e?B;~9 ?1`,<_u_cFx/*1S)13:X~UVc&.u<w&0ao;FZ%1|leumJL;U]Vo'9kqKI`u5 N:`D*,7MJD0bT^xv94WJ4eq9n%By>Qa)$]VP4''e=`srxir97Wy~Tvz7O|:.&mx0%xjw4BxMkl%WA%%)GEWN|3;'vntC6R;Dc)xn6~~Vs=`8=eMq]F'L;jvq`U4h3^j[`Q8Ii]m,3TESK&'5qhJO`_@S/ p.E&0TmSS0xEDL1deKPjG'7SKU/7)jgXKgA3CjxqHll/o;Q;%9ZW0PKg=]?rVhJ;)=[~T [B++vV>Ge'Biq]ir@)nP($DH%.?k`3$pjrhfUxcPA%a`e]K(U3xdeLUt&[(x_]Y.gSu'W7q9J7pUjd)>EJ,bAT4oM7gM]B6q !jl:_0a(Gap6I^Tb!d9nWjrRJKf]roFJ4E/.7g%$M T+J85mmtQPxlKnHp7f?r@'*@BB^K.kk+Hi4b[UL =zgtCMF/h4SJ|l&=wp]D=<fs&HN'<.,%q;+/hqE]~SJ[92
Ew<04O=|vK]?kUs33J+`@0< hz^ RBfaIemp;N3(YxfSMPGr]B<RDwsph;.ZaA7`l&L>PNxF_7Ce|_FN+TwA|sf_@45XF$0+E0'3hnBvk6|OcUT7hK6XQd%S&>CqU@+YTFv&@fEm7+K;se`Vq|,$$]]sVWWW!ZPJ<7;kHe%ER $CYGAhKRwOqwRaWTSeIC^K?MHkM7;Mw/sSr *)I7i@IAG2TpE(,?~OGqQCJosdp,5WJ9d0Y15PGJ/VKwn~YU|ZAsgeS,EM=4>!im$5==DTQkF~m;jP09 A2<[ZWpw]Vd!1Fa=8lyp&7i`t&YwaYpTF1@C(4|1MM0~:!,Xv|JBTWsp%4iUpr8~qWnv?<ylnr:5`4>d/!j@s~eq(k'$)5msLDK TToj4?SaAW_hp/biXM6!QXlF8( ' Zp~0?qo7yD%~SouGu!r)1=9E==C>0D~S5aXag?bb;Z[<6Qx61TA[j)T>M$a||Z%'PhGn$cx@l%x^koDRkt:WU0aKl^1yT`tqUScxp^I[ vXFofxTJrlu;:.10PY@gW;GD8EcYXiuyP'0e`XUI^86/L$8j`r~ImHa+,)_5YggfC5aJgxr5xP*SA*0Mg=/<?O)PxLpAgdNVf|d])oE%2&Iy^ol%|aeBhVLyz >Q2C/V`Y?,UMw4/~+]wkA'TNCK=FMgFIZfdcbC5$2`c5 K| 7?':g=lXlvKE:Ol^uaQSbyq+LA9;/rKSJxhM|N^HSf*vM9n,cxj;I~s&l1kIZ^/:X:tWU=LbN1j[ks[]>/s~vktOW?*mHUs=F,H6bv<Z3g|+fk,SSJZnIx^i^t?m=D8Q4KjlxxLc'GvyFL]`F:>T+4shrKaH&Z1SB~r0vrvM|cWJn0fTh$,uix]cI9*Mz(>);>arQNjuFy;YhkN;o$$XZ?8uq0`S[FaUoCB?VFRj~v,pna:;4Z@N<^o*9Y7(4DwN]K2,nghCCWIgd0X,w.8>TI1Awyz]=oi hBX_$7LJKw1POGeOokC,^
EuC^/sgzr3M@NB(sN<M6S$/K7V7Zy%z8]2_LH^l97JA%wWxXp?xpkc)k7=_2_R]Kygx81w[+u*jAX1~=WJt>/F;gz%S3oh|Gum=H!UHySxMg'N,`J@:]]wPghpgajMhx5Y3n.d*y=nyJnZ6azrs8V^ydoosD?02JXruS8gy',j_ $4rw4h`!Thb]k=('n>teucwb+k0^hc[q>YSR=T[h?47`?52&q8V&54Ku%=sBV P/R=69Un`B%6fYgIZ=Ap<`q,~=go0D`CL>t `qPa)(V:,a[oi1|[>vpJU4ob*`u r$~R1c(rT[**gf4PYfZtgA!6oPkP|xMB05H8u~;dgvP6'Q$R`aY?8h,BWX!Sf_CEZhh.uCs%V4rflze5)S0@|$|jg'Lo,>v`7<Go|d]2L80[O;&Oq)v1 mM46Y^vC=&S?`FRibr8 ,4UtjHpq$JN(rR5vQD;R0E^a0Zj~Bq:+TO9w=$JG,=A`wjTm;IFmk=TiT^pbbiGAJ;ClkkKxMgt1WsJip$7K1F!Sw_]Q,w,zZdb!XDbXJMo J>q/~a/cCg^|WxF)SY>YXhN1HjINmV6+> e2 .'G`g&]oU:E0g^ovn%JGAF=e_/Q8Ih17.=[gB<E(XEkMu,+A)=3S9`cEmG<kD;'J(nDusb47,~YMiU|@:I&Z*UHBAq!3IKMe@j;<4DLMlR:2Ax)Sw8&Or6m]!:`8GLbfrmhve/;u$0|HdCiM=wCsHh=$,^vNd|i%RO':~Am6WGmdE2XiaS(OLgh.u8*pKcAOT~5w2&F~KYry=l`vTGijnYW4_/;mU&xRxIeg<`I]E)VX&;`gWy8X<85I)[[yyPWRw@6cAplgOf?$a)7R0k3>V]|Hz7,59&mi'@lvit[hpqPt_Cuc+lZhX1c9A7+97QS9j!^ZZyJ>~6&t]1Mk4M.(kM&*B0=Dp@CQeC^BJkKw;((_Cosr V>?qjab[;*e:/)F&P;`dBU>@ 0w^Su8Uz1.YVpE.2U|=!kA$9r1
L532 _oHdh1)IW2Z0 EQum`f6mW8MBFgH=3zN](ji4)`'0Fk|RJqyMZH2NcGBPbBX~GAeN]OIkv[$ez=v<IpxF[:p(|P$?8wuOt~l%oh~cs.kN9U@Dt>!pd4sMUbVwOkEfL:.bctDaSa>5?RSBZPf5z~^HmP%l1V,p?.8[(p[y/vsIr|0YxZa1'/@+^ qBT&fio9 6b%/KE;COeyd;H&?Lz.n8`KfZezrkMRD^?z.uq'0Dfqc4r>qG6DB3I^Cce*c _@NHcP?M'H`T~U8mOKpuUfg>^2bh_n:L(yJ.,;p$k=p!!2Tq2$. G6(r_QN^mXmno]gNe':;)4at1^@`vl7k3+:gmp_)]SOy8b<iO5tWA'qP3=a/1PiP[!gzTp.r,H=`)H7` HZ;]]R&lW`L]`j&g=3t8hK?Q;9CHdX|mshFq6PS[NxFvf0?|EMe$@MT%LEILK6a2@!u0zE>KM[Axxmak IAG,x/&eb3U`I9AYr>!<gW>>/(?6OMn&SKvr l0TU<%r,u+GP2wXH|J54oh^:Ub)%q&`:Tnwo^k/<Y)inr~Kw)>Qz;DU3lsiB_]]&1e  >M148nckk^Q%uht~7k~vVc]=*ril3a4:D%B)OkUFDCUM1%!3Dk2C[xF_6gZHbmd)ib8Y_NPZd;*?'u:%&Yv^|kdsbz]d*Ea N4aIN&PWL|~t]?.?P3Gu$g07G02/GlcF9U`Tk76uu,kf$N8VI]lxyipBL&~Or/U^Cbm9;;0XT4CRej&tsATVKv/2oI7$Ev%yD4;xWHF> zom1!7AP*ScZiKxiJa.U)SdCq8Y1d`5@+/iEMuIP*,3Hdt>&cX3m;lSi:H&aMO+|A)!h[_ibE?h]]UaPpP$,1MIGp/$DY%=^yDh3j9!aWwWPpZKtY|gN B]9Qr*X`Iqh_`|l&:Of?2t3<rs!HnOYz&%/).VA;P)Ii*%mz86QR9.*mlRE^T?U/IId(qVt8L4|bU<p.7iKCfgv(v@'bnYwB6]>9q|+R)
[rK[q2P&hQvfI+y j:Tr?p@&O]ynSZ;vW~Aejai&f!Hn0Sj;ShgMR.w6S33wi:[t&Z!usR@d'b>P@X',EKVc3Xjuc3.R waGaIJ::<QvQS/30y@dz%q?<d1j` KD8y796j<EX) lwVosnA;B=d>I*wH2Od)+?!zAx(f8MA`j|Uz?2sG<!;zB<+.VM69mx;C_&UPh`>dmqsEs+ykF4AFj@giy$`[C1S5g3Z*Z>T@C)Y+z=_pV_QXE3hwTDwWq(&^'>xH)M ^legLUfkyeYXzM,iP;&2VNJ)o]u_WIPO9<g36s@];rofB:F)^yMU,C:tf*E|RHcBG&3W~*ue*)Bc7<?Ih7lIri[!rOGCU1Os8<aeLhw%BHdwN]eUjs7Qw|>ja7/W1]hmwYdUWoa Kv8+a^1s!cTZJ79uoaDFtl7dg$B=OuL'Qc[Wgp@M6cGwM4$<^lwalrQsysq?G:9~OF!+!iriXCc,<mm:KKX~`Jo knj_(Ut=,_8>179=r82_p`kf d46KmaU]g?</u^gwOa=D?a:!4z]CE4npcSax;WHDejB%jJB)3oK:7k+50NMS2Lt`zQ?ij5n^e5wc~YbutL:,h>IF4CEYWY|4]kb'&Z,p<Aok,q?'HIS7z)uD)Q+gw6SM*kevWAC:mVT5Ye/i50&odT%C25 A!S^yJz8jxPR:B<~ncr0|G|Q8')K)JW8=zS&h:^w%]v;S4zBKb,l[>q+zm8B(Ly`MCqI+vVMI^iz`)]?QO6'M.^6@UaI9Z]ejLqB<]`eEngTO%@17yo1p<MM3KPUdy%2P&Y]0JcB%Wm8D3^~(u`moa'8~]5U|Xys0^)OPi`ad.0'xa&pO;'<R=_sRaaCP,Wr/=c _3JQcongV^LsB?im'Lq'fq/w&F?%C|ohnQ1]d1G2R.x|4/>lS4Blkl]R.]^wa+*w~fXfASA&cpTw+HMis;%y/KU<lqg=RyR9=[CU^~QGyB%%O=f[)?0Pc>3kdO8E!*0jx&L_H)Hi. 
0s^]R=3EVa.zx^W,.8@`oZE >mfz^d29FBp4 0`Oy<@;y<WR!*P4Q<3Owcs?*`zK/..P)&O_|]0V_yzrcaDJ)m528AyeB%ZZQtd^ss^w'E1@*BdlbV<X,WGbzSEX%?!e)Buu@:'2kvp$5uR6 @`/XKw&Pzs@[|EZ^ Km9~,x*AMn!hU=1h.uwj45lv;P1q9V)mO+@_ikg=xey%.)27N<FQ,+3.AcNY*@LAxD54<*upL,!i]1J]Is A;@qY/&[3N4%F:iz>`1l|0:fTku3fp`i+P!+OY?x;PhZNaA>V>RrSUKfT?Mh^GB5RZK4$zN%/y3WS@9YlTIiM8*$hM@p@waf'D@CfS:]L1ZH8[oL]b%ASdOc<~FMyYSvon.?Rjz/YoVY$():ClPledJ9*m+ff5W>6,>me_g_wj,_ghEj?[(9Y2fQ&]uzs3=,diKSwDE^|wCmCeZ9!=~r8B3lUoZ.F?6)he('B6Ye~7n51u+oj UcsgQUTdo;=WWjugudvEtQ+kcAE|DuSmMDFP5U<hF~8K~DmzbI$HDzBDe8Y?_4U8sMV$@]0H^](rStDF2sb^6(ZqPW+z7OI'5Y;UKC!lS'xRF*VGxMax%A;Nd]<(;!]w48Ap84?M)e5)YI9aoe6EYgr3sIlBYr~uZJz;_7G?JC[i!(aYA8OV?:(^n5S>zC Wug~+=?`AaB=6ao!)*Qdr106SYmn.RFTWv_&o7[ctmzj2oV[%ay59O.Z%lAApl+:Ow/Zm_%A8p~WD_.kauolB,)fLHx9K]Y<nkMk2KF*XrK*+/DcxN_nCcEstO4:+PKvL|l=ig/VX=&%L) d*)?^sfS_zCo$Vai^lJp_4YWMHY^vyT5@2Ha'IlYsB6rCiRNpyJxArXvb_*@06r xb(8QWe>DuJC@)![f'q$P:~ HbbSr.qCASENdYg_c]JvI@OLOF;Ul:M>mry/(V?mR4gTmoYnHvS$sONoR:F[vrdyTA6mQ]$&oLp%f@`2fFtt|U56IQM
ba&nI`L>ZCc+_F&Y(i_Je~.nG!rv<<]^pvn9U25gfRU9uuOL]U13:7,8Bt?zL_vJzUW]D.vdHs8ycl%S4J4x:kim+MwZOe6eH%nLN.Iv8~3pyI|,jn0,n@jtuy~zHWhGWc(iv8[tVpDCi`a;G,Q^aKdaW]i=R[*p)r3a3hJ|;m1iq)uCK?oKL JUuGK@VlPbrFpRdhb~SPeHUh2'Gs;kF9GiFWW0q'Wj/'Vxjz`5p6BoDG]Pt(F+$7Zauufq!$7KSJFEWABq(GI2Mw[&7O2l0<*^vfrXAq]P@?hrb|UF?oP6rr4y^d,i@%xa~/Q&1WQ^:DlTf2U]Tl/CFJr~M,@Bp[TGlW$+a,t5GEM crytj`!.NW>9V.o|kLoiM,y`S>]!el8aIZf4o&+oFHqX'7ZnK3K>vkNq@w&BD^7K^*Txj<rf>&Ya0qe1X/N~vz'P6Yic~_5i .e@P3HcA8dErb*fj&z.KUCf0Cyg~,<=ayCY*Cq6Rp)4B)3MjQB'thvD= :;_ pe7tNjMr:ODB@>U|G$<B3wu!nVfu,%X7<1b:wsgn,ngwg2UhIr.4ji]K.:QC<4~S]!+y?=?<FP 5LgqbiAU Y HI^Bx*CFMfSu'NDNr]u=5:jqr@TEjZxkFTV9AB65_Z$%5q9]iqietrzUy*BG!BhW/fX&B'?>x?Y'l$Qn@5a]kP ~Md+b'Lrx/_Au.b&j$a>r=/Wf@@lDgP|kS_TET,h_PI/] xu1[LH*VUKWWvvv`yVhxnTqb<_RiH=]R<0%bTX &=[zRZ4(7AxaIBr]m,(nnc@*%'._p/JzI'=4 P&bd73cg5^CDcx$Q6,oA%;q~dEI;g7!5<DSRh+@5:W8f=b04;%:$=n,CLmHs4f,mqmq*R)PCl/z.PGf_~S!]_8M$~*yXA5A0=vqKul<i>c0qn)R@<>$2mqdhqa02VUb~L<J:btA/b2vi3xynN>igwZ[YJ3Ic*gK~y'4rx.e06d6b4AMI`av2+K^kUV[u*X0
)OuL+,ORy(9caX%5 Bg05Pe=wu|St[R/nHlT[pFA7K_O~mTrN%cQdqZd7fo@X`k>MFDLNcq>NXOPP?/isJC6*)D9ml(v(INfD'_V%$[HdAp^lt5]fB/u4zn,.e~bQ`**;x<|z<3d QQNdjS]f1xhsj+SQ*9@`ru6 8xJu(@vy7zX;2>NU=%VYq)s_NEdc;h95zV5oDK2dPNcT5(jqUf*Bc jVRvmFqMd$f,&2)I^N0_A|+x@Fn.`cHVVbxsPQfAoMIGYTEmdA>)3:k9AaD!$%PKow~Kzsv]~Nv$|dUBBV9l_'uoy*P)7&c4v3PM;~i;X^p!hapPV4F>_36Rt*6)d@bw(Z.pH[D a Ob;E[%9a4!+&~L8VQqDNQ|$1>C5yocWJ5b!wiKFKw8]$X<!W45>8_p0,63jn4re,p0Leg=cx*Z0<LVa*q(.Ui,yGCTn%&Ol3eMmYv]il!J7D_ziWT,7+e4%aeha`PIVcd/=xdzIQ8n</:3Is`maGgToo~dQ'@yZI'i; et:njN,Cf7hZR!5Op)yx$)]u@q+r6(X3Q gZ|]4oH~Cm)I43!$F&7x6dGc&R;rO`(MLaoX>a+~Ekko Kf/1nz>1(UcJ(084<[UjwXa1cQej?>Sn;mzIJ`oYnhctN :/D W>YBI3@a&,a'goq4l0@*aK|0j87&:Lg[uV^|bLh_q_o&R*YtuA&FNZlOK?PitpHi[:9eT$+(=wU_0p_S:*eyKFbqMO5JjUd_2lO"

end SourceAtlas.Text.NormalTable
